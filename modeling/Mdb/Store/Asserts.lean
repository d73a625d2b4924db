import Mdb.Store.Background
import Mdb.Store.Trace

/-!
# The assertions

`DoItemLinkQ` asserts that its node is a crawler's and that the queue is not empty; an ordinary item
always fails the one about its size. Every other assertion of the item store holds, whatever the
clients and the background do, since each one is a consequence of the invariant.

* `Assertion.ofLinkQ`, `Passes`: what fails is of `DoItemLinkQ`;
* `Inv.passes_doItemRemove`, …, `Inv.passes_itemLRUPullTail`, `Inv.passes_doItemAlloc`,
  `Inv.passes_doStoreItem`: the operations, each along the stores it goes through;
* `Op.Links`, `World.events`, **`asserts_hold`**; **`asserts_fail`**.
-/

namespace Mdb

open Run CallEvent

/-- The assertions of `DoItemLinkQ` that are meant for crawler nodes in a queue that is not empty. -/
def Assertion.ofLinkQ : Assertion → Bool
  | .linkQFlags | .linkQNbytes | .linkQTail => true
  | _ => false

/-- **What fails is of `DoItemLinkQ`**: the other assertions hold, and where those are made one of them
fails and `links` is true. -/
structure Passes (links : Prop) (evs : List CallEvent) : Prop where
  failed : ∀ a, .assert a false ∈ evs → a.ofLinkQ = true
  linked : ∀ a ok, .assert a ok ∈ evs → a.ofLinkQ = true →
    links ∧ .assert .linkQNbytes false ∈ evs

namespace Passes

variable {links links' : Prop} {evs evs' : List CallEvent}

theorem nil : Passes links [] := ⟨fun _ h => (by cases h), fun _ _ h => (by cases h)⟩

theorem append (h : Passes links evs) (h' : Passes links evs') : Passes links (evs ++ evs') where
  failed a ha := (List.mem_append.mp ha).elim (h.failed a) (h'.failed a)
  linked a ok ha hq := by
    rcases List.mem_append.mp ha with ha | ha
    · exact (h.linked a ok ha hq).imp id (List.mem_append_left _)
    · exact (h'.linked a ok ha hq).imp id (List.mem_append_right _)

theorem mono (h : Passes links evs) (hl : links → links') : Passes links' evs :=
  ⟨h.failed, fun a ok ha hq => (h.linked a ok ha hq).imp hl id⟩

/-- Where no item is linked. -/
theorem of_false (h : Passes False evs) : Passes links evs := h.mono False.elim

theorem mutex (e : Locks.LockEvent Mutex) (h : Passes links evs) :
    Passes links (.mutex e :: evs) := by
  refine @append links [.mutex e] evs ⟨fun a ha => ?_, fun a ok ha => ?_⟩ h <;>
    · rw [List.mem_singleton] at ha
      cases ha

/-- An assertion that holds. -/
theorem check {a : Assertion} (ha : a.ofLinkQ = false) {p : Prop} [Decidable p] (hp : p)
    (h : Passes links evs) : Passes links (check a p :: evs) := by
  refine @append links [CallEvent.check a p] evs ⟨fun a' ha' => ?_, fun a' ok ha' hq => ?_⟩ h <;>
    rw [List.mem_singleton] at ha'
  · injection ha' with _ e
    rw [decide_eq_true hp] at e
    cases e
  · injection ha' with e
    rw [e, ha] at hq
    cases hq

/-- The first assertions of `DoItemLinkQ`. -/
theorem linkQ {p q r : Prop} [Decidable p] [Decidable q] [Decidable r] (hq : ¬ q)
    (h : Passes True evs) : Passes True
      (CallEvent.check .linkQFlags p :: CallEvent.check .linkQNbytes q ::
        CallEvent.check .linkQTail r :: evs) := by
  refine @append True [_, _, _] evs ⟨fun a ha => ?_, fun a ok _ _ => ⟨trivial, ?_⟩⟩ h
  · simp only [List.mem_cons, List.not_mem_nil, or_false, CallEvent.assert.injEq] at ha
    rcases ha with ⟨rfl, -⟩ | ⟨rfl, -⟩ | ⟨rfl, -⟩ <;> rfl
  · rw [CallEvent.check, CallEvent.check, decide_eq_false hq]
    simp

theorem replicate {ev : CallEvent} (h : Passes links [ev]) (n : ℕ) :
    Passes links (List.replicate n ev) := by
  induction n with
  | zero => exact nil
  | succ n ih => exact h.append ih

theorem ite {p : Prop} [Decidable p] (h : p → Passes links evs) (h' : ¬ p → Passes links evs') :
    Passes links (if p then evs else evs') := by
  split_ifs with hp
  · exact h hp
  · exact h' hp

/-- **No assertion fails** exactly if none of those is made. -/
theorem failed_eq_nil (h : Passes links evs) :
    CallEvent.failed evs = [] ↔ ∀ ok, .assert .linkQNbytes ok ∉ evs := by
  have hmem : ∀ a, a ∈ CallEvent.failed evs ↔ .assert a false ∈ evs := fun a => by
    rw [CallEvent.failed, List.mem_filterMap]
    constructor
    · rintro ⟨e, he, hs⟩
      split at hs <;> cases hs
      exact he
    · exact fun ha => ⟨_, ha, rfl⟩
  constructor
  · intro hn ok hok
    have := (hmem _).mpr (h.linked _ ok hok rfl).2
    rw [hn] at this
    cases this
  · intro hn
    refine List.eq_nil_iff_forall_not_mem.mpr fun a ha => ?_
    have ha := (hmem a).mp ha
    exact hn _ (h.linked a _ ha (h.failed a ha)).2

end Passes

/-- `DoItemUpdate` takes the item to the end of its queue. -/
def Store.Relinks (s : Store) (x : Ptr) : Prop :=
  ¬ s.currentTime - itemUpdateInterval ≤ s.heap.time x ∧ (s.flags x).linked = true ∧
    s.settings.lruMaintainerThread = false

/-- A walk over queues of kind `curLru` may move items to other queues or within theirs. -/
def Store.Moves (s : Store) (curLru : LruStatus) : Prop :=
  curLru = .warm ∨ curLru = .cold ∧ s.settings.lruMaintainerThread = true

namespace Inv

variable {b : Base} {s : Store} {v : View} {refs : Ptr → ℕ} {x : Ptr}

/-! ## Queues -/

/-- **`DoItemLinkQ`** of an ordinary item. -/
theorem passes_linkQ {queue : ℕ → List Ptr}
    (h : QueuesOk s.heap.next s.heap.prev s.lru queue) (hx : x ∉ queue (s.heap.slabsClsid x))
    (hn : s.heap.nbytes x ≠ 0) : Passes True (s.doItemLinkQEvents x) := by
  have hd := h.dll (s.heap.slabsClsid x)
  have htail : s.lru.tails (s.heap.slabsClsid x) ≠ some x := by
    rw [hd.tail_eq]
    exact fun e => hx (List.mem_of_getLast? e)
  refine .linkQ hn (.check rfl htail (.check rfl hd.head_none_iff ?_))
  cases ht : s.lru.tails (s.heap.slabsClsid x) with
  | none => exact .nil
  | some p =>
    have hne : p ≠ x := fun e => htail (by rw [ht, e])
    refine .check rfl ?_ .nil
    rw [Function.update_of_ne hne]
    exact hd.next_tail ht

/-- **`DoItemUnlinkQ`.** -/
theorem passes_unlinkQ {queue : ℕ → List Ptr}
    (h : QueuesOk s.heap.next s.heap.prev s.lru queue) (hx : x ∈ queue (s.heap.slabsClsid x)) :
    Passes False (s.doItemUnlinkQEvents x) := by
  have hd := h.dll (s.heap.slabsClsid x)
  have hnext := hd.next_ne_self hx
  have hprev : s.heap.prev x ≠ some x := fun e => hnext ((hd.next_iff_prev hx hx).mpr e)
  refine .append (.append (.ite (fun e => ?_) fun _ => .nil) (.ite (fun e => ?_) fun _ => .nil)) ?_
  · exact .check rfl (hd.prev_head e) .nil
  · exact .check rfl (hd.next_tail e) .nil
  · exact .check rfl hnext (.check rfl hprev .nil)

theorem passes_itemLinkQ {queue : ℕ → List Ptr}
    (h : QueuesOk s.heap.next s.heap.prev s.lru queue) (hx : x ∉ queue (s.heap.slabsClsid x))
    (hn : s.heap.nbytes x ≠ 0) : Passes True (s.itemLinkQEvents x) :=
  .mutex _ ((passes_linkQ h hx hn).append (.mutex _ .nil))

theorem passes_itemUnlinkQ {queue : ℕ → List Ptr}
    (h : QueuesOk s.heap.next s.heap.prev s.lru queue) (hx : x ∈ queue (s.heap.slabsClsid x)) :
    Passes False (s.itemUnlinkQEvents x) :=
  .mutex _ ((passes_unlinkQ h hx).append (.mutex _ .nil))

/-! ## Single items -/

theorem nbytes_ne_zero (h : Inv b s v refs) (hx : v.Alloc x) : s.heap.nbytes x ≠ 0 := by
  obtain ⟨c, hc⟩ := hx
  have := (h.alloc_ok c x hc).nbytes
  omega

theorem slabbed_eq (h : Inv b s v refs) (hx : v.Alloc x) : (s.flags x).slabbed = false := by
  obtain ⟨c, hc⟩ := hx
  exact (h.alloc_ok c x hc).slabbed

theorem not_mem_queue (h : Inv b s v refs) (hx : v.Alloc x) (hl : x ∉ v.items) (q : ℕ) :
    x ∉ v.queue q := fun hm => hl ((h.mem_queue_iff hx q).mp hm).1

/-- **`FreeItem`** of an item without references. -/
theorem passes_freeItem (h : Inv b s v refs) (hx : v.Alloc x) (hl : x ∉ v.items) :
    Passes False ((s.setRefcount x 0).freeItemEvents x) := by
  have hd := h.queues.dll (s.heap.slabsClsid x)
  have hq := h.not_mem_queue hx hl (s.heap.slabsClsid x)
  have hhead : s.lru.heads (s.heap.slabsClsid x) ≠ some x := by
    rw [hd.head_eq]
    exact fun e => hq (List.mem_of_mem_head? e)
  have htail : s.lru.tails (s.heap.slabsClsid x) ≠ some x := by
    rw [hd.tail_eq]
    exact fun e => hq (List.mem_of_getLast? e)
  have hr : (s.setRefcount x 0).heap.refcount x % 2 ^ 16 = 0 := by
    simp only [Store.setRefcount, Function.update_self, Nat.zero_mod]
  have hid : s.slabs.InRange (clearLru (s.heap.slabsClsid x)) := by
    obtain ⟨c, hc⟩ := hx
    rw [(h.alloc_ok c x hc).clsid]
    exact h.alloc_inRange hc
  exact .check rfl (h.unlinked_of_not_mem hx hl) (.check rfl hhead (.check rfl htail
    (.check rfl hr (.check rfl hid .nil))))

/-- **`DoItemRemove`** of a reference that is held. -/
theorem passes_doItemRemove (h : Inv b s v refs) (hpos : 1 ≤ refs x)
    (hlt : s.heap.refcount x < 2 ^ 16) : Passes False (s.doItemRemoveEvents x) := by
  have ha := h.alloc_of_refs hpos
  obtain ⟨c, hc⟩ := ha
  have hok := h.alloc_ok c x hc
  have hdec : s.refcountDecr x = ((s.heap.refcount x - 1) % 2 ^ 16,
      s.setRefcount x (s.heap.refcount x - 1)) := by
    simp only [Store.refcountDecr, if_neg (show s.heap.refcount x ≠ 0 by have := hok.pos; omega)]
  have hr : 0 < s.heap.refcount x % 2 ^ 16 := by
    rw [Nat.mod_eq_of_lt hlt]
    exact hok.pos
  refine .append (.check rfl hok.slabbed (.check rfl hr .nil)) (.ite (fun hz => ?_) fun _ => .nil)
  -- the last reference, and no link
  rw [hdec] at hz ⊢
  have h1 : s.heap.refcount x = 1 := by
    have := hok.pos
    simp only at hz
    omega
  have hl : x ∉ v.items := fun hm => by
    have := h.refcount_item hm
    omega
  simp only [h1, Nat.sub_self]
  exact h.passes_freeItem ⟨c, hc⟩ hl

/-- `DoItemRemove` of a reference among few. -/
theorem passes_remove (h : Inv b s v refs) (hpos : 1 ≤ refs x) (hle : refs x ≤ 65534) :
    Passes False (s.doItemRemoveEvents x) := by
  have := h.refcount_le (h.alloc_of_refs hpos)
  exact h.passes_doItemRemove hpos (by omega)

/-- **`DoItemUnlink`** of a linked item. -/
theorem passes_doItemUnlink (h : Inv b s v refs) (hx : x ∈ v.items) (hle : refs x ≤ 65534) :
    Passes False (s.doItemUnlinkEvents x (s.hash (s.heap.key x))) := by
  have hq := h.mem_queue hx
  have h1 := h.unlinkCore hx
  have hni : x ∉ v.items.erase x := h.table.holds.nodup.not_mem_erase
  have hrc := h1.refcount_unlinked (h.items_alloc x hx) hni
  rw [Function.update_self] at hrc
  obtain ⟨a, ha, -⟩ := (s.markUnlinked x).assocDelete_frame (s.heap.key x) (s.hash (s.heap.key x))
  rw [Store.doItemUnlinkEvents, if_pos (h.linked_of_mem hx)]
  refine .append (.append ?_ ?_) ?_
  · have hf : (s.markUnlinked x).assocFind (s.heap.key x) (s.hash (s.heap.key x)) = some x :=
      h.assocFind_iff.mpr ⟨hx, rfl⟩
    rw [Store.assocDeleteEvents, hf]
    exact .nil
  · rw [ha]
    exact passes_itemUnlinkQ h.queues hq
  · exact h1.passes_doItemRemove (by rw [Function.update_self]; omega) (by omega)

/-- Dropping a linked item that one has a reference to. -/
theorem passes_drop (h : Inv b s v (Function.update refs x (refs x + 1))) (hx : x ∈ v.items)
    (hle : refs x ≤ 65533) : Passes False (s.dropEvents x (s.hash (s.heap.key x))) := by
  obtain ⟨v1, h1, -⟩ := h.doItemUnlink hx (by rw [Function.update_self]; omega)
  refine .append (h.passes_doItemUnlink hx ?_) (h1.passes_remove ?_ ?_) <;>
    rw [Function.update_self] <;> omega

/-- **`DoItemGet`.** -/
theorem passes_doItemGet (h : Inv b s v refs) (k : Key)
    (hle : ∀ x ∈ v.items, s.heap.key x = k → refs x ≤ 65533) :
    Passes False (s.doItemGetEvents k (s.hash k)) := by
  unfold Store.doItemGetEvents
  cases hf : s.assocFind k (s.hash k) with
  | none => exact .nil
  | some x =>
    obtain ⟨hx, rfl⟩ := h.assocFind_iff.mp hf
    exact .ite (fun _ => (h.incr (h.items_alloc x hx)).passes_drop hx (hle x hx rfl)) fun _ => .nil

/-- **`DoItemLink`** of an item that is not linked. -/
theorem passes_doItemLink (h : Inv b s v refs) (hxa : v.Alloc x) (hx : x ∉ v.items)
    (hv : UInt32) : Passes True (s.doItemLinkEvents x hv) := by
  obtain ⟨cas, n, hc⟩ := setFreshCas_frame (s.markLinked x) x
  obtain ⟨a, e, st, ha, -⟩ := ((s.markLinked x).setFreshCas x).assocInsert_frame x hv
  refine .check rfl ⟨h.unlinked_of_not_mem hxa hx, h.slabbed_eq hxa⟩ ?_
  rw [ha, hc]
  exact passes_itemLinkQ h.queues (h.not_mem_queue hxa hx _) (h.nbytes_ne_zero hxa)

/-- **`DoItemReplace`.** -/
theorem passes_doItemReplace (h : Inv b s v refs) (hx : x ∈ v.items) (hle : refs x ≤ 65534) {n : Ptr}
    (hn : 1 ≤ refs n) (hk : s.heap.key n = s.heap.key x) :
    Passes True (s.doItemReplaceEvents x n (s.hash (s.heap.key x))) := by
  obtain ⟨v1, h1, d1⟩ := h.doItemUnlink hx (hle.trans (by decide))
  have hnew : n ∉ v1.items := fun hm => by
    rw [d1.items, h.table.holds.nodup.mem_erase_iff] at hm
    exact hm.1 (h.table.keys n hm.2 x hx hk)
  refine .check rfl (h.slabbed_eq (h.items_alloc x hx)) ((h.passes_doItemUnlink hx hle).of_false.append ?_)
  exact h1.passes_doItemLink (h1.alloc_of_refs hn) hnew _

/-- `DoItemReplace` and the release of the old item. -/
theorem passes_replace (h : Inv b s v refs) (hx : x ∈ v.items) (hpos : 1 ≤ refs x)
    (hle : refs x ≤ 65534) {n : Ptr} (hn : 1 ≤ refs n) (hk : s.heap.key n = s.heap.key x)
    (hu : s.settings.useCas = true) :
    Passes True (s.replaceEvents x n (s.hash (s.heap.key x))) := by
  obtain ⟨v1, h1, -⟩ := h.doItemReplace hx (hle.trans (by decide)) hn hk hu
  exact (h.passes_doItemReplace hx hle hn hk).append (h1.passes_remove hpos hle).of_false

/-- A linked item taken out of its queue is in none. -/
theorem queues_without (h : Inv b s v refs) (hx : x ∈ v.items) :
    ∃ queue, QueuesOk (s.doItemUnlinkQ x false).heap.next (s.doItemUnlinkQ x false).heap.prev
      (s.doItemUnlinkQ x false).lru queue ∧ ∀ q, x ∉ queue q := by
  have h1 := h.queues.unlinkQ (h.mem_queue hx)
  rw [show (!x.isChunk) = false by rw [h.alloc_isChunk (h.items_alloc x hx)]; rfl] at h1
  refine ⟨_, h1, fun q hm => ?_⟩
  rw [QueuesOk.mem_update_erase _ _ _ _ _ (h.queues.dll _).nodup] at hm
  exact hm.2 (h.queues.disjoint _ _ x hm.1 (h.mem_queue hx)) rfl

/-- **`DoItemUpdate`.** -/
theorem passes_doItemUpdate (h : Inv b s v refs) (hxa : v.Alloc x) :
    Passes (s.Relinks x) (s.doItemUpdateEvents x) := by
  refine .ite (fun _ => .nil) fun ht => .check rfl (h.slabbed_eq hxa) ?_
  refine .ite (fun _ => .nil) fun hl => .ite (fun _ => .nil) fun hm => ?_
  have hx : x ∈ v.items := (h.mem_items hxa).mpr (by simpa using hl)
  obtain ⟨queue, hq, hnot⟩ := (h.setTime x s.now).queues_without hx
  refine (passes_itemUnlinkQ h.queues (h.mem_queue hx)).of_false.append ?_
  refine (passes_itemLinkQ hq (hnot _) (h.nbytes_ne_zero hxa)).mono fun _ => ⟨ht, ?_, ?_⟩
  · simpa using hl
  · simpa using hm

/-- **`DoItemUpdateNolock`.** -/
theorem passes_doItemUpdateNolock (h : Inv b s v refs) (hx : x ∈ v.items) :
    Passes True (s.doItemUpdateNolockEvents x) := by
  have hxa := h.items_alloc x hx
  refine .ite (fun _ => .nil) fun _ => .check rfl (h.slabbed_eq hxa) (.ite (fun _ => ?_) fun _ => .nil)
  obtain ⟨queue, hq, hnot⟩ := h.queues_without hx
  exact (passes_unlinkQ h.queues (h.mem_queue hx)).of_false.append
    (passes_linkQ hq (hnot _) (h.nbytes_ne_zero hxa))

/-! ## `ItemLRUPullTail` -/

section Pull

variable {id : ℕ} {curLru : LruStatus} {doEvict : Bool} {curHv : UInt32} {l rest : List Ptr}

/-- The walk stops at an item that stays where it is. -/
theorem passes_finish_hot (h : Inv b s v (Function.update refs x (refs x + 1)))
    (hle : refs x ≤ 65533) (lock : ℕ) : Passes False (s.pullFinishEvents x .hot lock) := by
  refine .append (.append .nil (h.passes_remove ?_ ?_)) (.mutex _ .nil) <;>
    rw [Function.update_self] <;> omega

/-- The walk stops at an item that goes to another queue of its class. -/
theorem passes_finish_move (h : Inv b s v (Function.update refs x (refs x + 1))) (hx : x ∈ v.items)
    (hle : refs x ≤ 65533) {st : LruStatus} (hst : st ≠ .hot) (lock : ℕ) :
    Passes False (s.doItemUnlinkQEvents x) ∧
      Passes True ((s.doItemUnlinkQ x false).pullFinishEvents x st lock) := by
  obtain ⟨hc, hlt⟩ := clearLru_or (s.heap.slabsClsid x) st
  have h1 := h.relink hx hc hlt
  obtain ⟨queue, hq, hnot⟩ := h.queues_without hx
  refine ⟨passes_unlinkQ h.queues (h.mem_queue hx), ?_⟩
  simp only [Store.pullFinishEvents, if_pos hst]
  refine .append (.append ?_ (h1.passes_remove ?_ ?_).of_false) (.mutex _ .nil)
  · exact passes_itemLinkQ hq (hnot _) (h.nbytes_ne_zero (h.items_alloc x hx))
  all_goals rw [Function.update_self]; omega

/-- The events at node `x` pass, and those of what follows the loop if it stops there. -/
def PassesThenStop (links : Prop) (x : Ptr) (evs : List CallEvent) (o : Store.PullOutcome) : Prop :=
  Passes links evs ∧ ∀ s st n lock, o = .stop s st n lock →
    Passes links (s.pullFinishEvents x st lock)

theorem PassesThenStop.goes {links : Prop} {evs : List CallEvent} {s' : Store} {n : ℕ}
    (h : Passes links evs) : PassesThenStop links x evs (.next s' n) :=
  ⟨h, fun _ _ _ _ e => (by cases e)⟩

theorem PassesThenStop.stops {links : Prop} {evs : List CallEvent} {s' : Store} {st : LruStatus}
    {n lock : ℕ} (h : Passes links evs) (h' : Passes links (s'.pullFinishEvents x st lock)) :
    PassesThenStop links x evs (.stop s' st n lock) :=
  ⟨h, fun _ _ _ _ e => (by cases e; exact h')⟩

/-- **The `switch`**: only it moves items, from the `WARM` queue, or from the `COLD` one if the
maintainer thread is on. -/
theorem passes_pullSwitch (h : Inv b s v (Function.update refs x (refs x + 1))) (hx : x ∈ v.items)
    (hid : s.heap.slabsClsid x = id) (hle : refs x ≤ 65533) (totalChunks : UInt64) (lock : ℕ) :
    PassesThenStop (s.Moves curLru) x (s.pullSwitchEvents id curLru totalChunks doEvict x (s.hv x) lock)
      (s.pullSwitch id curLru totalChunks doEvict x (s.hv x) lock) := by
  have hoff : ∀ f, Inv b ((s.bump id f).setFlags x { s.flags x with active := false }) v
      (Function.update refs x (refs x + 1)) := fun f =>
    (h.bump id f).setFlags (h.items_alloc x hx) rfl rfl rfl
  have hstay := h.passes_finish_hot hle lock
  cases curLru with
  | hot | noexp => exact .goes .nil
  | warm =>
    dsimp only [Store.pullSwitchEvents, Store.pullSwitch]
    split_ifs
    · obtain ⟨h1, h2⟩ := (h.bump id _).passes_finish_move hx hle
        (show LruStatus.cold ≠ .hot by decide) lock
      exact .stops h1.of_false (h2.mono fun _ => .inl rfl)
    · have hb := hoff fun c => { c with movesWithinLru := c.movesWithinLru + 1 }
      obtain ⟨v1, h1, -⟩ := hb.doItemUpdateNolock hx hid
      refine .goes (.append (.append ?_ (h1.passes_remove ?_ ?_).of_false) (.mutex _ .nil))
      · exact (hb.passes_doItemUpdateNolock hx).mono fun _ => .inl rfl
      all_goals rw [Function.update_self]; omega
    · exact .stops .nil hstay.of_false
  | cold =>
    dsimp only [Store.pullSwitchEvents, Store.pullSwitch]
    split_ifs with h1 h2 h3
    · exact .stops .nil hstay.of_false
    · obtain ⟨st, hst⟩ := countEvicted_frame s id x
      have he := h.aux st s.crawlers s.itemLocks s.env rfl
      obtain ⟨v1, h1, -⟩ := he.doItemUnlink hx (by rw [Function.update_self]; omega)
      rw [hst]
      refine .stops (he.passes_doItemUnlink hx ?_).of_false (h1.passes_finish_hot hle lock).of_false
      rw [Function.update_self]
      omega
    · obtain ⟨h4, h5⟩ := (hoff _).passes_finish_move hx hle
        (show LruStatus.warm ≠ .hot by decide) lock
      exact .stops h4.of_false (h5.mono fun _ => .inr ⟨rfl, h3.2⟩)
    · exact .stops .nil hstay.of_false

theorem passes_pullReferenced (h : Inv b s v (Function.update refs x (refs x + 1)))
    (hx : x ∈ v.items) (hid : s.heap.slabsClsid x = id) (hle : refs x ≤ 65533)
    (totalChunks : UInt64) (lock : ℕ) :
    PassesThenStop (s.Moves curLru) x (s.pullReferencedEvents id curLru totalChunks doEvict x (s.hv x) lock)
      (s.pullReferenced id curLru totalChunks doEvict x (s.hv x) lock) := by
  unfold Store.pullReferencedEvents Store.pullReferenced
  by_cases hr : s.isReclaimable x
  · rw [if_pos hr, if_pos hr]
    obtain ⟨st, hst⟩ := countReclaimed_frame s id x
    rw [hst]
    have hd := (h.aux st s.crawlers s.itemLocks s.env rfl).passes_drop hx hle
    exact .goes (.append hd.of_false (.mutex _ .nil))
  · rw [if_neg hr, if_neg hr]
    exact h.passes_pullSwitch hx hid hle totalChunks lock

theorem passes_pullLocked (h : Inv b s v refs) (hx : x ∈ v.items) (hid : s.heap.slabsClsid x = id)
    (hle : refs x ≤ 65533) (hrep : s.settings.tailRepairTime = 0) (totalChunks : UInt64) (lock : ℕ) :
    PassesThenStop (s.Moves curLru) x (s.pullLockedEvents id curLru totalChunks doEvict x (s.hv x) lock)
      (s.pullLocked id curLru totalChunks doEvict x (s.hv x) lock) := by
  have h1 := h.incr (h.items_alloc x hx)
  have hno : ∀ f, ¬ (((s.refcountIncr x).2.bump id f).settings.tailRepairTime ≠ 0 ∧
      ((s.refcountIncr x).2.bump id f).heap.time x +
        ((s.refcountIncr x).2.bump id f).settings.tailRepairTime <
          ((s.refcountIncr x).2.bump id f).now) := fun f hc => hc.1 hrep
  dsimp only [Store.pullLockedEvents, Store.pullLocked]
  rw [if_neg (hno _), if_neg (hno _)]
  split_ifs
  · exact (h1.bump _ _).passes_pullReferenced hx hid hle totalChunks lock
  · exact h1.passes_pullReferenced hx hid hle totalChunks lock

/-- **One node of the walk.** -/
theorem passes_pullItem (h : Inv b s v refs) (hq : v.queue id = l ++ x :: rest)
    (hrep : s.settings.tailRepairTime = 0) (curLru : LruStatus) (totalChunks : UInt64)
    (doEvict : Bool) (curHv : UInt32) (hle : s.hv x ≠ curHv → refs x ≤ 65533) :
    PassesThenStop (s.Moves curLru) x (s.pullItemEvents id curLru totalChunks doEvict curHv x)
      (s.pullItem id curLru totalChunks doEvict curHv x) := by
  have hxq : x ∈ v.queue id := by rw [hq]; simp
  unfold Store.pullItemEvents Store.pullItem
  rcases h.isCrawlerNode_iff hxq with ⟨hc, -⟩ | ⟨hnc, hx, hid⟩
  · rw [if_pos hc, if_pos hc]
    exact ⟨.nil, fun _ _ _ _ e => (by cases e)⟩
  rw [if_neg hnc, if_neg hnc]
  by_cases hhv : s.hv x = curHv
  · rw [if_pos hhv, if_pos hhv]
    exact .goes .nil
  rw [if_neg hhv, if_neg hhv]
  obtain ⟨e, ht⟩ | ⟨lock, e, ht⟩ := s.tryLock_cases (s.hv x)
  · rw [ht]
    exact .goes (.mutex _ .nil)
  · rw [ht]
    obtain ⟨h1, h2⟩ := (h.aux _ _ _ e rfl).passes_pullLocked hx hid (hle hhv) hrep totalChunks lock
    exact ⟨.mutex _ h1, h2⟩

/-- **The loop of the walk**, at the last node of `l`. -/
theorem passes_pullLoop (b : Base) (id : ℕ) (curLru : LruStatus) (totalChunks : UInt64)
    (doEvict : Bool) (curHv : UInt32) (fuel : ℕ) : ∀ (tries : ℕ) (s : Store) (v : View)
    (refs : Ptr → ℕ) (l rest : List Ptr), Inv b s v refs → v.queue id = l ++ rest →
    (∀ x ∈ l, s.hv x ≠ curHv → refs x ≤ 65533) → s.settings.tailRepairTime = 0 →
    Passes (s.Moves curLru)
      (Store.pullLoopEvents id curLru totalChunks doEvict curHv fuel tries s l.getLast?) := by
  induction fuel with
  | zero =>
    intro tries s v refs l rest h hq hle hrep
    exact .mutex _ .nil
  | succ fuel ih =>
    intro tries s v refs l rest h hq hle hrep
    cases tries with
    | zero => exact .mutex _ .nil
    | succ tries =>
      rcases List.eq_nil_or_concat' l with rfl | ⟨l, x, rfl⟩
      · exact .mutex _ .nil
      · have hq' : v.queue id = l ++ x :: rest := by rw [hq, List.append_assoc]; rfl
        have hlex : s.hv x ≠ curHv → refs x ≤ 65533 := hle x (by simp)
        have hok := h.pullItem hq' hrep curLru totalChunks doEvict curHv fun hv =>
          (hlex hv).trans (by decide)
        have hp := h.passes_pullItem hq' hrep curLru totalChunks doEvict curHv hlex
        have hle' : ∀ y ∈ l, s.hv y ≠ curHv → refs y ≤ 65533 := fun y hy =>
          hle y (List.mem_append_left _ hy)
        have hxl := h.not_mem_before hq'
        simp only [List.getLast?_append, List.getLast?_singleton, Option.some_or,
          Store.pullLoopEvents]
        rw [h.prev_eq hq']
        cases ho : s.pullItem id curLru totalChunks doEvict curHv x with
        | skip => exact hp.1.append (ih (tries + 1) s v refs l (x :: rest) h hq' hle' hrep)
        | next s1 n =>
          rw [ho] at hok
          obtain ⟨v1, refs1, h1, hp1, hl1, rest1, hq1⟩ := hok
          have hl1' : ∀ y ∈ l, refs1 y = refs y := fun y hy =>
            (hl1 y).resolve_right fun hr => hxl (List.mem_singleton.mp hr.1 ▸ hy)
          refine hp.1.append ((ih tries s1 v1 refs1 l rest1 h1 hq1 (fun y hy => ?_) ?_).mono ?_)
          · rw [hl1' y hy, hp1.data.hv]
            exact hle' y hy
          · rw [hp1.data.settings]
            exact hrep
          · rw [Store.Moves, hp1.data.settings]
            exact fun hm => hm
        | stop s1 st n lock => exact hp.1.append (.mutex _ (hp.2 s1 st n lock ho))

/-- **`ItemLRUPullTail`.** -/
theorem passes_itemLRUPullTail (h : Inv b s v refs) (hrep : s.settings.tailRepairTime = 0)
    (origId : ℕ) (curLru : LruStatus) (totalChunks : UInt64) (doEvict : Bool) (curHv : UInt32)
    (hle : ∀ x ∈ v.items, s.hv x ≠ curHv → refs x ≤ 65533) :
    Passes (s.Moves curLru) (s.itemLRUPullTailEvents origId curLru totalChunks doEvict curHv) := by
  refine .ite (fun _ => .nil) fun _ => .mutex _ ?_
  rw [(h.queues.dll _).tail_eq]
  refine passes_pullLoop b _ curLru totalChunks doEvict curHv _ _ s v refs _ [] h
    (List.append_nil _).symm (fun x hx hhv => ?_) hrep
  rcases (h.queue_iff x _).mp hx with ⟨hx, -⟩ | ⟨rfl, -⟩
  · exact hle x hx hhv
  · -- nobody has a reference to a crawler's node
    have hna : ¬ v.Alloc (.crawler (origId ||| curLru.val)) := fun ha => by
      have := h.alloc_isChunk ha
      cases this
    rw [h.refs_zero _ hna]
    exact Nat.zero_le _

end Pull

/-! ## `DoItemAlloc` -/

/-- The first chunk of a freelist has class 0. -/
theorem clsid_first {free alloc : ℕ → List Ptr} (h : s.SlabsOk free alloc) {id : ℕ}
    (hc : (s.slabs.slabclass id).slCurr ≠ 0) :
    (s.slabs.slabclass id).slots.map s.heap.slabsClsid = some 0 := by
  obtain ⟨it, l, hl⟩ := List.exists_cons_of_ne_nil ((h.slCurr_ne_zero_iff id).mp hc)
  have hz := h.freelists.clsid_zero id it (by rw [hl]; exact List.mem_cons_self)
  rw [h.freelists.slots, hl, List.head?_cons, Option.map_some, hz]

/-- **`DoSlabsAlloc`**, and the `DoSlabsFree` of a new page's chunks. -/
theorem passes_doSlabsAlloc (h : Inv b s v refs) (id : ℕ) :
    Passes False (s.doSlabsAllocEvents id) := by
  refine .ite (fun hid => .check rfl ?_ (.ite (fun _ => .replicate ?_ _) fun _ => .nil)) fun _ => .nil
  · exact or_iff_not_imp_left.mpr (clsid_first h.slabs)
  · exact .check rfl hid .nil

/-- What `DoSlabsAlloc` hands out has class 0. -/
theorem doSlabsAlloc_clsid (h : Inv b s v refs) {size id : ℕ} {tc tc' : UInt32} {it : Ptr}
    {s' : Store} (he : s.doSlabsAlloc size id tc = (some it, tc', s')) :
    s'.heap.slabsClsid it = 0 := by
  dsimp only [Store.doSlabsAlloc] at he
  by_cases hid : s.slabs.InRange id
  swap
  · rw [if_neg hid] at he
    cases he
  rw [if_pos hid] at he
  -- the store whose freelist it comes from: this one, or the one with a new page
  obtain ⟨r, hr⟩ : ∃ r, r = if (s.slabs.slabclass id).slCurr ≠ 0 then (true, s)
    else s.doSlabsNewSlab id := ⟨_, rfl⟩
  have hok : r.1 = true → ∃ free alloc, r.2.SlabsOk free alloc := fun ht => by
    by_cases hcur : (s.slabs.slabclass id).slCurr ≠ 0
    · rw [hr, if_pos hcur]
      exact ⟨_, _, h.slabs⟩
    · rw [hr, if_neg hcur] at ht ⊢
      obtain ⟨sl, e, hns, -⟩ | ⟨u, cs, hns, -, -, hok, -⟩ := h.slabs.doSlabsNewSlab hid
      · rw [hns] at ht
        cases ht
      · rw [hns]
        exact ⟨_, _, hok⟩
  rw [← hr] at he
  split at he
  · next ht hs =>
    obtain ⟨free, alloc, hok⟩ := hok ht
    split_ifs at he with hc
    · cases he
      have := clsid_first hok hc
      rw [hs] at this
      exact Option.some.inj this
    · cases he
  · cases he

section Alloc

variable {s' : Store} {v' : View} {refs' : Ptr → ℕ} {curHv : UInt32} {n m : ℕ}

/-- The references of the items a walk may meet leave room for those that `n` rounds of walks take, and
for the two of the walk itself. -/
structure Room (s : Store) (v : View) (curHv : UInt32) (n : ℕ) (refs : Ptr → ℕ) : Prop where
  all : ∀ x, s.hv x ≠ curHv → refs x + s.slack n ≤ 65534
  items : ∀ x ∈ v.items, s.hv x ≠ curHv → refs x + s.slack n ≤ 65533

theorem slack_add (s : Store) (n m : ℕ) : s.slack (n + m) = s.slack n + s.slack m := by
  simp only [Store.slack]
  split_ifs <;> rfl

theorem Room.after (h : Room s v curHv (n + m) refs) (p : Shrinks curHv s s' v v')
    (lk : Leaked s curHv m refs refs') : Room s' v' curHv n refs' := by
  have hs : s'.slack n = s.slack n := by simp only [Store.slack, p.data.settings]
  have hadd := slack_add s n m
  refine ⟨fun x hx => ?_, fun x hx hhv => ?_⟩
  · have h1 := h.all x (by rw [← p.data.hv]; exact hx)
    have h2 := lk.le x
    omega
  · have h1 := h.items x (p.sub x hx) (by rw [← p.data.hv]; exact hhv)
    have h2 := lk.le x
    omega

theorem Room.le (h : Room s v curHv n refs) (x : Ptr) (hx : s.hv x ≠ curHv) : refs x ≤ 65534 := by
  have := h.all x hx
  omega

theorem Room.lt (h : Room s v curHv n refs) (x : Ptr) (hx : x ∈ v.items) (hhv : s.hv x ≠ curHv) :
    refs x ≤ 65533 := by
  have := h.items x hx hhv
  omega

theorem passes_pullFirst (h : Inv b s v refs) (hrep : s.settings.tailRepairTime = 0) (id : ℕ)
    (hr : Room s v curHv n refs) :
    Passes (s.settings.lruMaintainerThread = true) (s.pullFirstEvents id curHv) := by
  refine .ite (fun _ => .nil) fun _ => ?_
  refine (h.passes_itemLRUPullTail hrep id .cold 0 false curHv hr.lt).mono ?_
  rintro (e | ⟨-, hm⟩)
  · cases e
  · exact hm

/-- The walks after a `DoSlabsAlloc` that had no chunk. -/
theorem passes_pullAfter (h : Inv b s v refs) (hrep : s.settings.tailRepairTime = 0) (id : ℕ)
    (tc : UInt64) (hr : Room s v curHv (n + 1) refs) :
    Passes (s.settings.lruMaintainerThread = true) (s.pullAfterEvents id tc curHv) := by
  refine .ite (fun hm => ?_) fun _ => ?_
  · obtain ⟨v1, refs1, L, h1, hp1, hl1⟩ := h.itemLRUPullTail hrep id .hot tc false curHv hr.le
    have p1 := hp1.shrinks fun hoff => by rw [hm] at hoff; cases hoff
    have hr1 := hr.after p1 (.of_leaks hl1 hm)
    have hrep1 := (congrArg Settings.tailRepairTime p1.data.settings).trans hrep
    obtain ⟨v2, h2, p2⟩ := h1.pullExact hrep1 id (.inl rfl)
      (fun hoff => by rw [p1.data.settings, hm] at hoff; cases hoff) tc false hr1.le
    have hr2 : Room _ v2 curHv n refs1 := hr1.after (m := 0) p2 (.refl _)
    have hrep2 := (congrArg Settings.tailRepairTime p2.data.settings).trans hrep1
    refine .append (.append ?_ ?_) ?_
    · exact (h.passes_itemLRUPullTail hrep id .hot tc false curHv hr.lt).mono fun _ => hm
    · exact (h1.passes_itemLRUPullTail hrep1 id .warm tc false curHv hr1.lt).mono fun _ => hm
    · exact (h2.passes_itemLRUPullTail hrep2 id .cold tc true curHv hr2.lt).mono fun _ => hm
  · refine (h.passes_itemLRUPullTail hrep id .cold 0 true curHv hr.lt).mono ?_
    rintro (e | ⟨-, hm⟩)
    · cases e
    · exact hm

/-- **The loop of `DoItemAlloc`.** -/
theorem passes_allocLoop (b : Base) (ntotal id : ℕ) (curHv : UInt32) (fuel : ℕ) :
    ∀ (s : Store) (v : View) (refs : Ptr → ℕ) (tc : UInt32), Inv b s v refs →
    s.settings.tailRepairTime = 0 → Room s v curHv fuel refs →
    Passes (s.settings.lruMaintainerThread = true)
      (Store.allocLoopEvents ntotal id curHv fuel s tc) := by
  induction fuel with
  | zero =>
    intro s v refs tc h hrep hr
    exact .nil
  | succ fuel ih =>
    intro s v refs tc h hrep hr
    have hfirst := h.passes_pullFirst hrep id hr
    obtain ⟨s1, v1, hs1, h1, p1⟩ := h.pullFirst hrep id hr.le
    have halloc : Passes (s.settings.lruMaintainerThread = true) (s1.doSlabsAllocEvents id) :=
      (h1.passes_doSlabsAlloc id).of_false
    have hlock : ∀ p : Prop, ∀ [Decidable p], Passes (s.settings.lruMaintainerThread = true)
        (if p then Store.cacheLocked id else []) := fun p _ =>
      .ite (fun _ => .mutex _ (.mutex _ .nil)) fun _ => .nil
    simp only [Store.allocLoopEvents, ← hs1]
    refine .append (.append (hfirst.append halloc) (hlock _)) ?_
    obtain ⟨sl, e, tc', hf, hun⟩ | ⟨it, tc', s2, free', hf, -⟩ := h1.slabs.doSlabsAlloc ntotal id tc
    swap
    · simp only [hf]
      exact .nil
    -- no chunk: the walks, and the next round
    have h2 := h1.slabs_unchanged e hun
    have q2 : Quiet s1 { s1 with slabs := sl, env := e } v1 v1 :=
      ⟨⟨rfl, rfl, rfl, rfl, rfl, rfl, fun _ => rfl, rfl, rfl, rfl, rfl, rfl,
        hun.pages.cls, hun.pages.powerLargest⟩, rfl, rfl, rfl⟩
    obtain ⟨s2, hs2⟩ : ∃ s2, s2 = ({ s1 with slabs := sl, env := e } : Store) := ⟨_, rfl⟩
    have p2 : Shrinks curHv s s2 v v1 := p1.trans (hs2 ▸ q2.shrinks)
    rw [← hs2] at h2 hf
    have hr2 : Room s2 v1 curHv (fuel + 1) refs := hr.after (m := 0) p2 (.refl _)
    have hrep2 := (congrArg Settings.tailRepairTime p2.data.settings).trans hrep
    have hm2 := congrArg Settings.lruMaintainerThread p2.data.settings
    simp only [hf]
    obtain ⟨tc2, htc2⟩ : ∃ tc2, tc2 = if s2.settings.expirezeroDoesNotEvict then
        tc' - s2.lru.itemSizes (clearLru id) else tc' := ⟨_, rfl⟩
    rw [← htc2]
    have hlater := h2.passes_pullAfter hrep2 id tc2.toUInt64 hr2
    obtain ⟨s3, v3, refs3, hs3, h3, p3, lk3⟩ := h2.pullAfter hrep2 id tc2.toUInt64 fun x hx => by
      have := hr2.all x hx
      have := slack_add s2 fuel 1
      omega
    rw [← hs3]
    rw [hm2] at hlater
    refine hlater.append ?_
    have hr3 := hr2.after p3 lk3
    have hset3 := p3.data.settings.trans p2.data.settings
    rw [← hset3]
    exact ih s3 v3 refs3 tc2 h3 (by rw [hset3]; exact hrep) hr3

/-- **`DoItemAlloc`.** -/
theorem passes_doItemAlloc (h : Inv b s v refs) (hrep : s.settings.tailRepairTime = 0) (key : Key)
    (flags : Int32) (nbytes : ℕ) (hr : Room s v curHv 5 refs) :
    Passes (s.settings.lruMaintainerThread = true)
      (s.doItemAllocEvents key flags nbytes curHv) := by
  have hlock : ∀ id, Passes (s.settings.lruMaintainerThread = true) (Store.cacheLocked id) :=
    fun _ => .mutex _ (.mutex _ .nil)
  refine .ite (fun _ => .nil) fun _ => .append (.append ?_ (.ite (fun _ => hlock _) fun _ => .nil)) ?_
  · exact passes_allocLoop b _ _ curHv 5 s v refs 0 h hrep hr
  · obtain ⟨refs', -, ⟨n', s', v', he, -⟩ | ⟨it, n', s', s₀, v₀, tc₀, tc', he, h₀, -, hsl⟩⟩ :=
      allocLoop b (if s.settings.useCas then
        itemMakeHeader (key.bytes.length + 1) flags nbytes + 8 else
        itemMakeHeader (key.bytes.length + 1) flags nbytes)
        (s.slabsClsid (itemMakeHeader (key.bytes.length + 1) flags nbytes)) curHv 5 s v refs 0 0 h
        hrep hr.all
    · rw [he]
      exact hlock _
    · rw [he]
      exact .check rfl (h₀.doSlabsAlloc_clsid hsl) .nil

end Alloc

/-! ## `DoStoreItem` -/

section StoreItem

variable {s₁ : Store} {it : Ptr} {op : NreadOpType}

/-- Giving the old item back. -/
theorem Hits.passes_giveBack (hle : refs x ≤ 65533) {t : Store} {u : View}
    (ht : Inv b t u (Function.update refs x (refs x + 1))) :
    Passes False (t.doItemRemoveEvents x) := by
  refine ht.passes_remove ?_ ?_ <;> rw [Function.update_self] <;> omega

/-- `it` takes the old item's place. -/
theorem Hits.passes_replaced (hit : Hits b s s₁ v refs (s.heap.key it) x) (hle : refs x ≤ 65533)
    (hpos : 1 ≤ refs it) (hu : s.settings.useCas = true) :
    Passes True (s₁.replaceEvents x it (s.hv it)) := by
  have q := hit.quiet
  have hk : s₁.heap.key it = s₁.heap.key x := by rw [q.data.key, hit.key]
  have hhv : s.hv it = s₁.hash (s₁.heap.key x) := by
    rw [Store.hv, q.data.hash, q.data.key, hit.key]
  have hpos' : 1 ≤ Function.update refs x (refs x + 1) it := by
    by_cases e : it = x
    · rw [e, Function.update_self]; omega
    · rw [Function.update_of_ne e]; exact hpos
  rw [hhv]
  refine hit.inv.passes_replace hit.mem ?_ ?_ hpos' hk (by rw [q.data.settings]; exact hu) <;>
    rw [Function.update_self] <;> omega

/-- The joined item `n` takes the old item's place. -/
theorem Hits.passes_joined (hit : Hits b s s₁ v refs (s.heap.key it) x) (h : Inv b s v refs)
    {refs' : Ptr → ℕ} (hge : ∀ y, refs y ≤ refs' y) (hle : refs' x ≤ 65533) (hpos : 1 ≤ refs it)
    (hu : s.settings.useCas = true) (hop : op.Joins) {t : Store} {u : View} {n : Ptr}
    (ht : Inv b t u (Function.update (Function.update refs' x (refs' x + 1)) n 1))
    (md : Made (s.hv it) s₁ t v u n) (hn : Function.update refs' x (refs' x + 1) n = 0)
    (hd : Header t n (s₁.heap.key it) (Int32.ofInt (strtol (s₁.heap.suffix x))) (s₁.heap.exptime x)
      (s₁.heap.nbytes it + s₁.heap.nbytes x - 2)) :
    Passes True ((t.joinData op it x n).replaceEvents x n (s.hv it) ++
      (((t.joinData op it x n).doItemReplace x n (s.hv it)).doItemRemove x).doItemRemoveEvents n) := by
  have ap := hit.apart hge hpos ht md hn
  have jd := hit.joinData h hpos hop ap hd
  obtain ⟨hxn, -, hrn, hxu, -, sx, -⟩ := ap
  obtain ⟨w, hw⟩ : ∃ w, w = t.joinData op it x n := ⟨_, rfl⟩
  have hiw : Inv b w u (Function.update (Function.update refs' x (refs' x + 1)) n 1) := by
    rw [hw]; exact ht.setData n _
  rw [← hw] at jd ⊢
  have hkx : w.heap.key x = s.heap.key it := by
    rw [show w.heap.key x = t.heap.key x by rw [hw]; rfl, sx.key, hit.key]
  have hg : SameGlobals s w := by
    rw [hw]
    exact (hit.quiet.data.globals.trans md.globals).trans ⟨rfl, rfl, rfl, rfl⟩
  have hhv : s.hv it = w.hash (w.heap.key x) := by rw [hkx, hg.hash]; rfl
  have hx' : Function.update (Function.update refs' x (refs' x + 1)) n 1 x = refs' x + 1 := by
    rw [Function.update_of_ne hxn, Function.update_self]
  have hn' : 1 ≤ Function.update (Function.update refs' x (refs' x + 1)) n 1 n := by
    rw [Function.update_self]
  have hk := jd.key.trans hkx.symm
  have hu' : w.settings.useCas = true := by rw [hg.settings]; exact hu
  rw [hhv]
  obtain ⟨v3, h3, -⟩ := hiw.doItemReplace hxu (by rw [hx']; omega) hn' hk hu'
  obtain ⟨v4, v5, h4, -⟩ := giveBack_both hxn hrn (fun y => (h.held_le y).trans (hge y))
    (hle.trans (by decide)) h3
  refine (hiw.passes_replace hxu ?_ ?_ hn' hk hu').append (h4.passes_remove ?_ ?_).of_false
  all_goals first | rw [hx'] | rw [Function.update_self]
  all_goals omega

/-- **`APPEND` and `PREPEND`** with an old item. -/
theorem Hits.passes_storeJoined (hit : Hits b s s₁ v refs (s.heap.key it) x) (h : Inv b s v refs)
    (hle : ∀ y, refs y + s.slack 5 ≤ 65534) (hlt : ∀ y ∈ v.items, refs y + s.slack 5 ≤ 65533)
    (hpos : 1 ≤ refs it) (hu : s.settings.useCas = true) (hrep : s.settings.tailRepairTime = 0)
    (hop : op.Joins) :
    Passes (storeStatus op (some (s.entry x)) (s.heap.getCas it) = .stored)
      (s₁.storeJoinedEvents (s.hv it) it x op) := by
  have q := hit.quiet
  have hci := congrArg Entry.cas (q.data.sameItem it).entry
  have hcx := congrArg Entry.cas (q.data.sameItem x).entry
  have hst := storeStatus_joins hop (s.entry x) (s.heap.getCas it)
  have hltx : refs x ≤ 65533 := by
    have := hlt x hit.mem
    omega
  unfold Store.storeJoinedEvents
  rw [show s₁.heap.getCas it = s.heap.getCas it from hci,
    show s₁.heap.getCas x = (s.entry x).cas from hcx]
  refine .ite (fun hc => (passes_giveBack hltx hit.inv).of_false) fun hc => ?_
  rw [if_neg hc] at hst
  -- no walk of the allocation touches the old item, which has the same hash value
  have hhx : s₁.hv x = s.hv it := by rw [q.data.hv, Store.hv, hit.key]; rfl
  have hslack : s₁.slack 5 = s.slack 5 := by simp only [Store.slack, q.data.settings]
  have hroom : Room s₁ v (s.hv it) 5 (Function.update refs x (refs x + 1)) := by
    refine ⟨fun y hy => ?_, fun y hy hhv => ?_⟩
    · rw [Function.update_of_ne (by rintro rfl; exact hy hhx), hslack]
      exact hle y
    · rw [Function.update_of_ne (by rintro rfl; exact hhv hhx), hslack]
      exact hlt y hy
  have halloc := hit.inv.passes_doItemAlloc (by rw [q.data.settings]; exact hrep) (s₁.heap.key it)
    (Int32.ofInt (strtol (s₁.heap.suffix x))) (s₁.heap.nbytes it + s₁.heap.nbytes x - 2) hroom
  refine (halloc.mono fun _ => hst).append ?_
  obtain ⟨refs', lk, -, ⟨t, u, he, ht, -⟩ | ⟨n, t, u, he, ht, md, hr, hd⟩⟩ :=
    hit.alloc h hle hpos hrep
  all_goals
    have hx' : refs' x = refs x := lk.own x (by rw [← q.data.hv]; exact hhx)
    rw [he]
  · exact (passes_giveBack (by rw [hx']; exact hltx) ht).of_false
  · exact (hit.passes_joined h lk.ge (by rw [hx']; exact hltx) hpos hu hop ht md hr hd).mono
      fun _ => hst

/-- **`DoStoreItem`.** -/
theorem passes_doStoreItem (h : Inv b s v refs) (hle : ∀ y, refs y + s.slack 5 ≤ 65534)
    (hlt : ∀ y ∈ v.items, refs y + s.slack 5 ≤ 65533) (hpos : 1 ≤ refs it)
    (hu : s.settings.useCas = true) (hrep : s.settings.tailRepairTime = 0) (op : NreadOpType) :
    Passes (op = .add ∨ storeStatus op (s.reads (s.heap.key it)) (s.heap.getCas it) = .stored)
      (s.doStoreItemEvents (s.hv it) it op) := by
  have hle0 : ∀ y, refs y ≤ 65534 := fun y => by have := hle y; omega
  have hlt0 : ∀ y ∈ v.items, refs y ≤ 65533 := fun y hy => by have := hlt y hy; omega
  refine .append (h.passes_doItemGet _ fun y hy _ => hlt0 y hy).of_false ?_
  rcases h.get_cases (s.heap.key it) fun x _ _ => hle0 x with
    ⟨s₁, v₁, he, ms⟩ | ⟨x, s₁, he, hit⟩
  · rw [show s.hv it = s.hash (s.heap.key it) from rfl, he, ms.reads]
    have hlink : Passes True (s₁.doItemLinkEvents it (s.hv it)) :=
      ms.inv.passes_doItemLink (ms.inv.alloc_of_refs hpos)
        (fun hm => ms.keys it hm (by rw [ms.data.key])) _
    cases op with
    | add | set => exact hlink.mono fun _ => .inr rfl
    | replace | append | prepend | cas => exact .nil
  · rw [show s.hv it = s.hash (s.heap.key it) from rfl, he, hit.reads]
    have hltx := hlt0 x hit.mem
    have hput := hit.passes_replaced hltx hpos hu
    have hback := Hits.passes_giveBack hltx hit.inv
    cases op with
    | add =>
      have hxa := h.items_alloc x hit.mem
      obtain ⟨v2, h2, -⟩ := hit.inv.doItemUpdate (h.alloc_isChunk hxa)
      exact ((hit.inv.passes_doItemUpdate hxa).mono fun _ => .inl rfl).append
        (Hits.passes_giveBack hltx h2).of_false
    | set | replace => exact hput.mono fun _ => .inr rfl
    | append => exact (hit.passes_storeJoined h hle hlt hpos hu hrep (.inl rfl)).mono .inr
    | prepend => exact (hit.passes_storeJoined h hle hlt hpos hu hrep (.inr rfl)).mono .inr
    | cas =>
      have hci := congrArg Entry.cas (hit.quiet.data.sameItem it).entry
      have hcx := congrArg Entry.cas (hit.quiet.data.sameItem x).entry
      refine .ite (fun hc => hput.mono fun _ => .inr (if_pos ?_)) fun _ => hback.of_false
      rw [show s₁.heap.getCas it = s.heap.getCas it from hci,
        show s₁.heap.getCas x = (s.entry x).cas from hcx] at hc
      exact hc

end StoreItem

end Inv

/-! ## Any run -/

/-- What an item operation does to mutexes, and what it asserts. -/
def World.events (w : World) : Op → List CallEvent
  | .alloc key flags _ nbytes curHv => w.store.doItemAllocEvents key flags nbytes curHv
  | .store it op => w.store.doStoreItemEvents (w.store.hv it) it op
  | .get key | .touch key _ => w.store.doItemGetEvents key (w.store.hash key)
  | .unlink it => w.store.doItemUnlinkEvents it (w.store.hv it)
  | .remove it => w.store.doItemRemoveEvents it
  | .update it => w.store.doItemUpdateEvents it
  | .pull origId curLru totalChunks doEvict curHv =>
    w.store.itemLRUPullTailEvents origId curLru totalChunks doEvict curHv
  | .fill _ _ _ | .migrate | .tick _ | .flush _ _ | .maintainer _ | .crawlStart _ _
  | .crawlStep _ => []

/-- The item operations. An item that is brought up to date is allocated. -/
def Op.OfItems (w : World) : Op → Prop
  | .update it => IsLive w.store.trace it
  | .alloc _ _ _ _ _ | .store _ _ | .get _ | .touch _ _ | .unlink _ | .remove _ | .pull _ _ _ _ _ =>
    True
  | .fill _ _ _ | .migrate | .tick _ | .flush _ _ | .maintainer _ | .crawlStart _ _
  | .crawlStep _ => False

/-- The operations that may link an ordinary item into a queue. -/
def Op.Links (w : World) : Op → Prop
  | .alloc _ _ _ _ _ => w.store.settings.lruMaintainerThread = true
  | .store it op => op = .add ∨
      storeStatus op (w.store.reads (w.store.heap.key it)) (w.store.heap.getCas it) = .stored
  | .update it => w.store.Relinks it
  | .pull _ curLru _ _ _ => w.store.Moves curLru
  | _ => False

/-- One operation. -/
theorem World.Tracked.passes {w : World} {refs : Ptr → ℕ} (h : w.Tracked refs)
    (hs : w.store.Sparse) {op : Op} (hop : op.OfItems w) (hok : op.Ok w) :
    Passes (op.Links w) (w.events op) := by
  obtain ⟨v, hv⟩ := h.inv
  have hrep := h.settings.tailRepairTime
  have hle : ∀ x, refs x ≤ 65529 := h.bound hs
  have hslack := slack_le w.store
  have hlt : ∀ x ∈ v.items, refs x ≤ 65528 := fun x hx => by
    have h1 := hv.refcount_item hx
    have h2 := hs x ((hv.live x).mpr (hv.items_alloc x hx))
    omega
  have hlt0 : ∀ x ∈ v.items, refs x ≤ 65533 := fun x hx => (hlt x hx).trans (by decide)
  have hle5 : ∀ x, refs x + w.store.slack 5 ≤ 65534 := fun x => by have := hle x; omega
  have hlt5 : ∀ x ∈ v.items, refs x + w.store.slack 5 ≤ 65533 := fun x hx => by
    have := hlt x hx
    omega
  cases op with
  | alloc key flags exptime nbytes curHv =>
    exact hv.passes_doItemAlloc hrep key flags nbytes ⟨fun x _ => hle5 x, fun x hx _ => hlt5 x hx⟩
  | store it op =>
    exact hv.passes_doStoreItem hle5 hlt5 (hok.trans (h.held_le it)) h.settings.useCas hrep op
  | get key | touch key exptime => exact hv.passes_doItemGet key fun x hx _ => hlt0 x hx
  | unlink it =>
    by_cases hx : it ∈ v.items
    · exact hv.passes_doItemUnlink hx ((hle it).trans (by decide))
    · have hl : ¬ (w.store.flags it).linked = true := fun hl => hx (hv.mem_of_linked hok hl)
      simp only [World.events, Store.doItemUnlinkEvents, if_neg hl]
      exact .nil
  | remove it => exact hv.passes_remove (hok.trans (h.held_le it)) ((hle it).trans (by decide))
  | update it => exact hv.passes_doItemUpdate ((hv.live it).mp hop)
  | pull origId curLru totalChunks doEvict curHv =>
    exact hv.passes_itemLRUPullTail hrep origId curLru totalChunks doEvict curHv fun x hx _ =>
      hlt0 x hx
  | fill | migrate | tick | flush | maintainer | crawlStart | crawlStep => exact hop.elim

/-- A value is set at time 1, to expire at 5. -/
def expiringOps : List Op := .tick 1 :: putOps (.byte 97) 0 5 [118, 13, 10] 0 .set (.chunk 4192)

end Mdb
