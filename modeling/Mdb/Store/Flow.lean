import Mdb.Store.Eviction

/-!
# What a walk reports, and where items go

`ItemLRUPullTail` returns a number. `Walked` says which items have left their queue after a walk.

* `Fate.Did.keeps`: an item leaves its queue exactly if it was unlinked or moved;
* `Inv.items_le`: a queue has no more items than its class has chunks;
* `Walked`, `Inv.pullLoop_walked`: the items that have left, by induction on the fuel; the number
  returned is theirs, and that of the idle visits;
* **`pull_reports`**: reclaimed, evicted and moved items, and idle visits; **`pull_reports_idle`**;
* **`warm_flows`**: from a `WARM` queue over its limit the item nearest the tail goes to `COLD`;
  **`hot_stays`**: from a `HOT` queue it does not.
-/

namespace Mdb

open Dll Run

/-! ## Leaving a queue -/

theorem mem_moveQueue {queue : ℕ → List Ptr} {x y : Ptr} {id n q : ℕ} (hd : (queue id).Nodup)
    (hx : ∀ q, x ∈ queue q → q = id) :
    y ∈ Inv.moveQueue queue x id n q ↔ y ∈ queue q ∧ y ≠ x ∨ q = n ∧ y = x := by
  rw [Inv.moveQueue, QueuesOk.mem_update_append, QueuesOk.mem_update_erase _ _ _ _ _ hd]
  refine or_congr (and_congr_right fun hy => ⟨fun h e => ?_, fun h _ => h⟩) Iff.rfl
  subst e
  exact h (hx q hy) rfl

/-- The target of a move is another queue. -/
theorem sibling_ne (c o : ℕ) : clearLru c ||| LruStatus.cold.val ≠ o ||| LruStatus.warm.val ∧
    clearLru c ||| LruStatus.warm.val ≠ o ||| LruStatus.cold.val := by
  have hlt : clearLru c < 2 ^ 6 := Nat.mod_lt _ (by decide)
  constructor
  · intro h
    have hb := congrArg (Nat.testBit · 6) h
    simp only [Nat.testBit_or, Nat.testBit_lt_two_pow hlt, Bool.false_or,
      show LruStatus.cold.val.testBit 6 = false from rfl,
      show LruStatus.warm.val.testBit 6 = true from rfl, Bool.or_true] at hb
    cases hb
  · intro h
    have hb := congrArg (Nat.testBit · 7) h
    simp only [Nat.testBit_or, Nat.testBit_lt_two_pow (hlt.trans (by decide : 2 ^ 6 < 2 ^ 7)),
      Bool.false_or, show LruStatus.warm.val.testBit 7 = false from rfl,
      show LruStatus.cold.val.testBit 7 = true from rfl, Bool.or_true] at hb
    cases hb

section Node

variable {b b' : Base} {s s' : Store} {v v' : View} {refs refs' : Ptr → ℕ} {x y : Ptr} {id : ℕ}
  {curLru : LruStatus} {totalChunks : UInt64} {doEvict : Bool} {curHv : UInt32} {f : Fate}

/-- A `WARM` item is moved if its queue is over the limit, a `COLD` one if it is active; never within
its queue. -/
theorem Store.fate_moves {q o : ℕ} (h : s.fate (o ||| curLru.val) curLru totalChunks doEvict curHv x =
    .moved q) : q ≠ o ||| curLru.val ∧
      (curLru = .cold ∧ q = s.sibling x .warm ∨
        curLru = .warm ∧ q = s.sibling x .cold ∧ s.isOver (o ||| curLru.val) totalChunks) := by
  unfold Store.fate Store.lockedFate at h
  split_ifs at h
  unfold Store.switchFate at h
  cases curLru with
  | hot => cases h
  | noexp => cases h
  | warm =>
    dsimp only [Store.nolockFate] at h
    split_ifs at h with ho
    cases h
    exact ⟨(sibling_ne _ o).1, .inr ⟨rfl, rfl, ho⟩⟩
  | cold =>
    dsimp only at h
    split_ifs at h
    cases h
    exact ⟨(sibling_ne _ o).2, .inl ⟨rfl, rfl⟩⟩

/-- **Who leaves its queue.** -/
theorem Fate.Did.keeps (hd : f.Did id s s' v v' x) (h : Inv b s v refs) (hx : x ∈ v.items)
    (hid : s.heap.slabsClsid x = id) (hne : ∀ q, f = .moved q → q ≠ id) (hy : y ∈ v.items) :
    y ∈ v'.queue (s.heap.slabsClsid y) ↔ (y = x → f.removed = 0) := by
  have hyq := h.mem_queue hy
  have hnd := (h.queues.dll id).nodup
  have huniq : ∀ q, x ∈ v.queue q → q = id := fun q hq => (h.clsid_of_mem hq).symm.trans hid
  rw [hd.queue]
  by_cases e : y = x
  · subst e
    rw [hid] at hyq ⊢
    cases f with
    | stays => simpa [Fate.queue, Fate.removed] using hyq
    | requeued => simp [Fate.queue, Fate.removed, mem_moveQueue hnd huniq]
    | dropped => simp [Fate.queue, Fate.removed, hnd.mem_erase_iff]
    | moved q => simp [Fate.queue, Fate.removed, mem_moveQueue hnd huniq, (hne q rfl).symm]
  · cases f with
    | stays => simpa [Fate.queue, e] using hyq
    | requeued => simpa [Fate.queue, mem_moveQueue hnd huniq, e] using hyq
    | dropped => simpa [Fate.queue, QueuesOk.mem_update_erase _ _ _ _ _ hnd, e] using hyq
    | moved q => simpa [Fate.queue, mem_moveQueue hnd huniq, e] using hyq

theorem Fate.Did.sub (hd : f.Did id s s' v v' x) : ∀ y ∈ v'.items, y ∈ v.items := fun y hy => by
  rw [hd.items] at hy
  cases f with
  | dropped => exact List.mem_of_mem_erase hy
  | stays => exact hy
  | requeued => exact hy
  | moved q => exact hy

/-- An item that is still in its queue. -/
theorem Inv.kept_iff (h : Inv b s v refs) (h' : Inv b' s' v' refs') (hy : y ∈ v.items) :
    y ∈ v'.queue (s.heap.slabsClsid y) ↔
      y ∈ v'.items ∧ s'.heap.slabsClsid y = s.heap.slabsClsid y := by
  obtain ⟨a, rfl⟩ := h.alloc_chunk (h.items_alloc y hy)
  rw [h'.queue_iff]
  simp

/-- The queue does not grow. -/
theorem Fate.countP_queue {queue : ℕ → List Ptr} (hx : x ∈ queue id)
    (hne : ∀ q, f = .moved q → q ≠ id) (p : Ptr → Bool) :
    (f.queue queue id x id).countP p ≤ (queue id).countP p := by
  cases f with
  | stays => exact le_rfl
  | requeued =>
    have hp : ((queue id).erase x ++ [x]).Perm (queue id) :=
      List.perm_append_comm.trans (List.perm_cons_erase hx).symm
    simp only [Fate.queue, Inv.moveQueue, Function.update_self]
    exact (hp.countP_eq p).le
  | dropped =>
    simp only [Fate.queue, Function.update_self]
    exact List.erase_sublist.countP_le
  | moved q =>
    simp only [Fate.queue, Inv.moveQueue, Function.update_of_ne (hne q rfl).symm,
      Function.update_self]
    exact List.erase_sublist.countP_le

theorem Inv.item_of_queue (h : Inv b s v refs) (hx : x ∈ v.queue id) (hc : x.isChunk = true) :
    x ∈ v.items := h.mem_items_of_queue hx fun e => by rw [e] at hc; cases hc

/-- The chunk of an item belongs to the class of its queue. -/
theorem Inv.mem_alloc_of_queue (h : Inv b s v refs) (hx : x ∈ v.queue id) (hc : x.isChunk = true) :
    x ∈ v.alloc (clearLru id) := by
  obtain ⟨c, hxc⟩ := h.items_alloc x (h.item_of_queue hx hc)
  have hcls := (h.alloc_ok c x hxc).clsid
  rw [h.clsid_of_mem hx] at hcls
  exact hcls ▸ hxc

/-- **A queue has no more items than its class has chunks.** -/
theorem Inv.items_le (h : Inv b s v refs) (id : ℕ) : (v.queue id).countP Ptr.isChunk ≤
    (s.slabs.slabclass (clearLru id)).slabs * (s.slabs.slabclass (clearLru id)).perslab := by
  have hsub : (v.queue id).filter Ptr.isChunk ⊆ s.slabs.chunks (clearLru id) := fun x hx => by
    obtain ⟨hq, hc⟩ := List.mem_filter.mp hx
    exact (h.slabs.perm _).mem_iff.mp
      (List.mem_append_right _ (mem_taken (h.mem_alloc_of_queue hq hc)))
  rw [List.countP_eq_length_filter, ← h.slabs.pages.chunks_length]
  exact (((h.queues.dll id).nodup.filter _).subperm hsub).length_le

theorem Inv.items_lt (h : Inv b s v refs) (id : ℕ) : (v.queue id).countP Ptr.isChunk < 2 ^ 32 := by
  have hle := h.items_le id
  rw [← h.slabs.pages.chunks_length] at hle
  exact (hle.trans (h.slabs.pages.chunks_length_le h.slabs.valid _)).trans_lt (by norm_num)

/-- A queue that is over the limit was so before. -/
theorem Inv.isOver_of_le (h : Inv b s v refs) (h' : Inv b' s' v' refs')
    (hset : s'.settings = s.settings)
    (hle : (v'.queue id).countP Ptr.isChunk ≤ (v.queue id).countP Ptr.isChunk)
    (ho : s'.isOver id totalChunks) : s.isOver id totalChunks := by
  unfold Store.isOver at ho ⊢
  rw [hset] at ho
  refine UInt64.lt_of_lt_of_le ho ?_
  rw [UInt64.le_iff_toNat_le, UInt32.toNat_toUInt64, UInt32.toNat_toUInt64, h.queues.size,
    h'.queues.size, UInt32.toNat_ofNat_of_lt' (h.items_lt id), UInt32.toNat_ofNat_of_lt' (h'.items_lt id)]
  exact hle

end Node

/-! ## The walk -/

/-- What has left its queue after a walk over the nodes `l` of queue `o | curLru`. It is still linked
only if it went from the `COLD` queue to the `WARM` one, or the other way, over the limit. -/
structure Walked (o : ℕ) (curLru : LruStatus) (totalChunks : UInt64) (doEvict : Bool) (l : List Ptr)
    (s : Store) (v v' : View) (gone : List Ptr) : Prop where
  nodup : gone.Nodup
  mem : ∀ y ∈ gone, y ∈ l ∧ y ∈ v.items
  sub : ∀ y ∈ v'.items, y ∈ v.items
  kept : ∀ y ∈ v.items, y ∈ v'.queue (s.heap.slabsClsid y) ↔ y ∉ gone
  lost : ∀ y ∈ gone, y ∉ v'.items → s.isReclaimable y ∨ doEvict = true
  moved : ∀ y ∈ gone, y ∈ v'.items → curLru = .cold ∧ y ∈ v'.queue (s.sibling y .warm) ∨
    curLru = .warm ∧ y ∈ v'.queue (s.sibling y .cold) ∧ s.isOver (o ||| curLru.val) totalChunks

/-- The item, if it leaves its queue. -/
def Fate.goner (x : Ptr) : Fate → List Ptr
  | .stays | .requeued => []
  | .dropped | .moved _ => [x]

theorem Fate.length_goner (f : Fate) (x : Ptr) : (f.goner x).length = f.removed := by
  cases f <;> rfl

theorem Fate.mem_goner (f : Fate) (x y : Ptr) : y ∈ f.goner x ↔ y = x ∧ f.removed ≠ 0 := by
  cases f <;> simp [Fate.goner, Fate.removed]

namespace Walked

variable {b b₁ b' : Base} {o : ℕ} {curLru : LruStatus} {totalChunks : UInt64} {doEvict : Bool}
  {curHv : UInt32} {l gone : List Ptr} {s s₁ s' : Store} {v v₁ v' : View}
  {refs refs₁ refs' : Ptr → ℕ} {x : Ptr}

theorem nil (h : Inv b s v refs) (l : List Ptr) : Walked o curLru totalChunks doEvict l s v v [] where
  nodup := List.nodup_nil
  mem y hy := by cases hy
  sub y hy := hy
  kept y hy := by simpa using h.mem_queue hy
  lost y hy := by cases hy
  moved y hy := by cases hy

theorem mono {l' : List Ptr} (w : Walked o curLru totalChunks doEvict l s v v' gone) (hl : l ⊆ l') :
    Walked o curLru totalChunks doEvict l' s v v' gone :=
  ⟨w.nodup, fun y hy => ⟨hl (w.mem y hy).1, (w.mem y hy).2⟩, w.sub, w.kept, w.lost, w.moved⟩

/-! A visit of node `x`, and then a walk over the nodes `l`. -/

section Visit

variable (h : Inv b s v refs) (h₁ : Inv b₁ s₁ v₁ refs₁) (h' : Inv b' s' v' refs')
  (hx : x ∈ v.items) (hid : s.heap.slabsClsid x = o ||| curLru.val)
  (hd : (s.fate (o ||| curLru.val) curLru totalChunks doEvict curHv x).Did (o ||| curLru.val) s s₁
    v v₁ x)

include h hx hid hd

theorem stays_iff {y : Ptr} (hy : y ∈ v.items) : y ∈ v₁.queue (s.heap.slabsClsid y) ↔
    (y = x → (s.fate (o ||| curLru.val) curLru totalChunks doEvict curHv x).removed = 0) :=
  hd.keeps h hx hid (fun _ hq => (Store.fate_moves hq).1) hy

include h₁ h'

variable (hxg : x ∉ gone) (w : Walked o curLru totalChunks doEvict l s₁ v₁ v' gone)

include hxg w

theorem visit_kept {y : Ptr} (hy : y ∈ v.items) : y ∈ v'.queue (s.heap.slabsClsid y) ↔
    y ∉ (s.fate (o ||| curLru.val) curLru totalChunks doEvict curHv x).goner x ++ gone := by
  have hkeep := stays_iff h hx hid hd hy
  rw [List.mem_append, Fate.mem_goner, not_or]
  by_cases hk : y ∈ v₁.queue (s.heap.slabsClsid y)
  · -- an item that this visit leaves in its queue is left there by the walk
    obtain ⟨hi, hc⟩ := (h.kept_iff h₁ hy).mp hk
    have := hkeep.mp hk
    rw [← hc, w.kept y hi]
    exact ⟨fun hg => ⟨fun hr => hr.2 (this hr.1), hg⟩, fun hr => hr.2⟩
  · -- `x` has left its queue, and does not come back
    have hr : y = x ∧ (s.fate (o ||| curLru.val) curLru totalChunks doEvict curHv x).removed ≠ 0 := by
      rw [hkeep, Classical.not_imp] at hk
      exact hk
    refine ⟨fun hq => absurd ?_ hk, fun hn => absurd hr hn.1⟩
    obtain ⟨hi', -⟩ := (h.kept_iff h' hy).mp hq
    have hi := w.sub y hi'
    have hq₁ := (w.kept y hi).mpr (hr.1 ▸ hxg)
    rw [h'.queues.disjoint _ _ y hq hq₁]
    exact h₁.mem_queue hi

omit h hid in
theorem visit_lost {y : Ptr}
    (hy : y ∈ (s.fate (o ||| curLru.val) curLru totalChunks doEvict curHv x).goner x ++ gone)
    (hy' : y ∉ v'.items) : s.isReclaimable y ∨ doEvict = true := by
  rcases List.mem_append.mp hy with hy | hy
  · obtain ⟨rfl, hr⟩ := (Fate.mem_goner _ _ _).mp hy
    cases hf : s.fate (o ||| curLru.val) curLru totalChunks doEvict curHv y with
    | stays => rw [hf] at hr; exact absurd rfl hr
    | requeued => rw [hf] at hr; exact absurd rfl hr
    | dropped => exact (Store.fate_dropped hf).2
    | moved q =>
      -- it is linked still, and the walk does not come back to it
      have hi : y ∈ v₁.items := by rw [hd.items, hf]; exact hx
      obtain ⟨hi', -⟩ := (h₁.kept_iff h' hi).mp ((w.kept y hi).mpr hxg)
      exact absurd hi' hy'
  · have hne : y ≠ x := fun e => hxg (e ▸ hy)
    have ht := (hd.time y).resolve_right fun hr => hne hr.1
    exact (w.lost y hy hy').imp (hd.data.isReclaimable ht).mp fun e => e

omit h' in
theorem visit_moved {y : Ptr}
    (hy : y ∈ (s.fate (o ||| curLru.val) curLru totalChunks doEvict curHv x).goner x ++ gone)
    (hy' : y ∈ v'.items) : curLru = .cold ∧ y ∈ v'.queue (s.sibling y .warm) ∨
      curLru = .warm ∧ y ∈ v'.queue (s.sibling y .cold) ∧ s.isOver (o ||| curLru.val) totalChunks := by
  rcases List.mem_append.mp hy with hy | hy
  · obtain ⟨rfl, hr⟩ := (Fate.mem_goner _ _ _).mp hy
    have hi := w.sub y hy'
    rw [hd.items] at hi
    cases hf : s.fate (o ||| curLru.val) curLru totalChunks doEvict curHv y with
    | stays => rw [hf] at hr; exact absurd rfl hr
    | requeued => rw [hf] at hr; exact absurd rfl hr
    | dropped =>
      rw [hf] at hi
      exact absurd hi h.table.holds.nodup.not_mem_erase
    | moved q =>
      -- where this visit has moved it, the walk leaves it
      have hi₁ : y ∈ v₁.items := by rw [hd.items, hf]; exact hx
      have hq₁ : s₁.heap.slabsClsid y = q := h₁.clsid_of_mem (by
        rw [hd.queue, hf]
        simp [Fate.queue, Inv.moveQueue])
      have hq := (w.kept y hi₁).mpr hxg
      rw [hq₁] at hq
      obtain ⟨-, ⟨hc, rfl⟩ | ⟨hw, rfl, ho⟩⟩ := Store.fate_moves hf
      · exact .inl ⟨hc, hq⟩
      · exact .inr ⟨hw, hq, ho⟩
  · have hi := (w.mem y hy).2
    have hne : y ≠ x := fun e => hxg (e ▸ hy)
    have hsib : ∀ st, s₁.sibling y st = s.sibling y st := fun st => by
      have hk := (stays_iff h hx hid hd (hd.sub y hi)).mpr fun e => absurd e hne
      rw [Store.sibling, Store.sibling, ((h.kept_iff h₁ (hd.sub y hi)).mp hk).2]
    have hle : (v₁.queue (o ||| curLru.val)).countP Ptr.isChunk ≤
        (v.queue (o ||| curLru.val)).countP Ptr.isChunk := by
      rw [hd.queue]
      exact Fate.countP_queue (hid ▸ h.mem_queue hx) (fun _ hq => (Store.fate_moves hq).1) _
    rw [← hsib, ← hsib]
    rcases w.moved y hy hy' with hc | ⟨hw, hq, ho⟩
    · exact .inl hc
    · exact .inr ⟨hw, hq, h.isOver_of_le h₁ hd.data.settings hle ho⟩

omit hxg in
/-- **One node, and the rest of the walk.** -/
theorem visit (hxl : x ∉ l) : Walked o curLru totalChunks doEvict (l ++ [x]) s v v'
    ((s.fate (o ||| curLru.val) curLru totalChunks doEvict curHv x).goner x ++ gone) := by
  have hxg : x ∉ gone := fun hg => hxl (w.mem x hg).1
  refine ⟨List.nodup_append.mpr ⟨?_, w.nodup, fun a ha c hc e => ?_⟩, fun y hy => ?_,
    fun y hy => hd.sub y (w.sub y hy), fun y hy => visit_kept h h₁ h' hx hid hd hxg w hy,
    fun y hy hy' => visit_lost h₁ h' hx hd hxg w hy hy',
    fun y hy hy' => visit_moved h h₁ hx hid hd hxg w hy hy'⟩
  · cases s.fate (o ||| curLru.val) curLru totalChunks doEvict curHv x <;> simp [Fate.goner]
  · rw [((Fate.mem_goner _ _ _).mp ha).1] at e
    exact hxg (e ▸ hc)
  · rcases List.mem_append.mp hy with hy | hy
    · rw [((Fate.mem_goner _ _ _).mp hy).1]
      exact ⟨by simp, hx⟩
    · exact ⟨List.mem_append_left _ (w.mem y hy).1, hd.sub y (w.mem y hy).2⟩

end Visit

end Walked

/-- How many nodes the walk counts that stay where they are. -/
def idleVisits (id : ℕ) (curLru : LruStatus) (totalChunks : UInt64) (doEvict : Bool)
    (curHv : UInt32) : ℕ → ℕ → Store → Option Ptr → ℕ
  | fuel + 1, tries + 1, s, some it =>
    (s.idles curLru doEvict curHv it).toNat +
    match s.pullItem id curLru totalChunks doEvict curHv it with
    | .skip => idleVisits id curLru totalChunks doEvict curHv fuel (tries + 1) s (s.heap.prev it)
    | .next t _ => idleVisits id curLru totalChunks doEvict curHv fuel tries t (s.heap.prev it)
    | .stop _ _ _ _ => 0
  | _, _, _, _ => 0

/-- The idle visits of an `ItemLRUPullTail`. -/
def Store.idlePull (s : Store) (origId : ℕ) (curLru : LruStatus) (totalChunks : UInt64)
    (doEvict : Bool) (curHv : UInt32) : ℕ :=
  let id := origId ||| curLru.val
  if origId = 0 then 0
  else idleVisits id curLru totalChunks doEvict curHv Store.pullFuel 5 s (s.lru.tails id)

/-- Only walks over a `COLD` queue that do not evict have idle visits. -/
theorem idleVisits_eq_zero (id : ℕ) {curLru : LruStatus} (totalChunks : UInt64) {doEvict : Bool}
    (curHv : UInt32) (h : curLru ≠ .cold ∨ doEvict = true) (fuel : ℕ) : ∀ (tries : ℕ) (s : Store)
    (it : Option Ptr), idleVisits id curLru totalChunks doEvict curHv fuel tries s it = 0 := by
  have hidle : ∀ (s : Store) (x : Ptr), s.idles curLru doEvict curHv x = false := fun s x => by
    rcases h with h | h <;> simp [Store.idles, Store.switchIdles, h]
  induction fuel with
  | zero => exact fun _ _ _ => rfl
  | succ fuel ih =>
    intro tries s it
    cases tries with
    | zero => rfl
    | succ tries =>
      cases it with
      | none => rfl
      | some x =>
        rw [idleVisits, hidle, Bool.toNat_false, Nat.zero_add]
        cases s.pullItem id curLru totalChunks doEvict curHv x with
        | skip => exact ih _ _ _
        | next t n => exact ih _ _ _
        | stop t st n lock => rfl

namespace Inv

variable {b : Base} {s : Store} {v : View} {refs : Ptr → ℕ}

/-- A `uint16_t` holds the references to a linked item and one more. -/
theorem refs_le (h : Inv b s v refs) (hfit : ∀ x ∈ v.items, s.heap.refcount x < 2 ^ 16) {x : Ptr}
    {q : ℕ} (hx : x ∈ v.queue q) : refs x ≤ 65534 := by
  rcases (h.queue_iff x q).mp hx with ⟨hi, -⟩ | ⟨rfl, -⟩
  · have := hfit x hi
    rw [h.refcount_item hi] at this
    omega
  · have hn : ¬ v.Alloc (.crawler q) := fun ha => by cases h.alloc_isChunk ha
    rw [h.refs_zero _ hn]
    omega

/-- **The loop of the walk**: what has left its queue, and the number returned. -/
theorem pullLoop_walked (b : Base) (o : ℕ) (curLru : LruStatus) (totalChunks : UInt64)
    (doEvict : Bool) (curHv : UInt32) (fuel : ℕ) : ∀ (tries : ℕ) (s : Store) (v : View)
    (refs : Ptr → ℕ) (l rest : List Ptr) (removed : ℕ), Inv b s v refs →
    v.queue (o ||| curLru.val) = l ++ rest → (∀ x ∈ l, s.hv x ≠ curHv → refs x ≤ 65534) →
    s.settings.tailRepairTime = 0 →
    ∃ v' refs' gone, Inv b (Store.pullLoop (o ||| curLru.val) curLru totalChunks doEvict curHv fuel
        tries s l.getLast? removed).2 v' refs' ∧
      SameData s (Store.pullLoop (o ||| curLru.val) curLru totalChunks doEvict curHv fuel tries s
        l.getLast? removed).2 ∧ Leaks s curHv curLru l refs refs' ∧
      Walked o curLru totalChunks doEvict l s v v' gone ∧
      (Store.pullLoop (o ||| curLru.val) curLru totalChunks doEvict curHv fuel tries s l.getLast?
        removed).1 = removed + gone.length +
          idleVisits (o ||| curLru.val) curLru totalChunks doEvict curHv fuel tries s l.getLast? := by
  induction fuel with
  | zero =>
    exact fun tries s v refs l rest removed h _ _ _ =>
      ⟨v, refs, [], h, .refl s, .refl _, .nil h l, rfl⟩
  | succ fuel ih =>
    intro tries s v refs l rest removed h hq hle hrep
    cases tries with
    | zero => exact ⟨v, refs, [], h, .refl s, .refl _, .nil h l, rfl⟩
    | succ tries =>
      rcases List.eq_nil_or_concat' l with rfl | ⟨l, x, rfl⟩
      · exact ⟨v, refs, [], h, .refl s, .refl _, .nil h [], rfl⟩
      have hq' : v.queue (o ||| curLru.val) = l ++ x :: rest := by
        rw [hq, List.append_assoc]; rfl
      have hxq : x ∈ v.queue (o ||| curLru.val) := by rw [hq']; simp
      have hle' : ∀ y ∈ l, s.hv y ≠ curHv → refs y ≤ 65534 := fun y hy =>
        hle y (List.mem_append_left _ hy)
      have hxl := h.not_mem_before hq'
      have hfated := h.pullItem_fate hxq hrep curLru totalChunks doEvict curHv (hle x (by simp))
      simp only [List.getLast?_append, List.getLast?_singleton, Option.some_or, Store.pullLoop,
        idleVisits]
      rw [h.prev_eq hq']
      rcases h.isCrawlerNode_iff hxq with ⟨hc, -⟩ | ⟨hnc, hx, hid⟩
      · have hidle : s.idles curLru doEvict curHv x = false := by
          simp [Store.idles, Store.getsLock, hc]
        rw [Store.pullItem, if_pos hc, hidle, Bool.toNat_false, Nat.zero_add]
        obtain ⟨v', refs', gone, h', hs, hlk, w, hn⟩ :=
          ih (tries + 1) s v refs l (x :: rest) removed h hq' hle' hrep
        exact ⟨v', refs', gone, h', hs, hlk.mono (List.subset_append_left _ _),
          w.mono (List.subset_append_left _ _), hn⟩
      cases ho : s.pullItem (o ||| curLru.val) curLru totalChunks doEvict curHv x with
      | skip =>
        rw [ho] at hfated
        have hxc := h.alloc_isChunk (h.items_alloc x hx)
        rw [show x = .crawler _ from hfated] at hxc
        cases hxc
      | next s₁ n =>
        rw [ho] at hfated
        obtain ⟨hn, v₁, refs₁, h₁, hd, hlk⟩ := hfated
        have hl₁ : ∀ y ∈ l, refs₁ y = refs y := fun y hy =>
          (hlk y).resolve_right fun hr => hxl (List.mem_singleton.mp hr.1 ▸ hy)
        obtain ⟨rest₁, hq₁⟩ := Fate.queue_front
          (s.fate (o ||| curLru.val) curLru totalChunks doEvict curHv x) hq' hxl
        obtain ⟨v', refs', gone, h', hs, hlk', w, hcount⟩ := ih tries s₁ v₁ refs₁ l rest₁ (removed + n) h₁
          (by rw [hd.queue]; exact hq₁) (fun y hy => by rw [hl₁ y hy, hd.data.hv]; exact hle' y hy)
          (by rw [hd.data.settings]; exact hrep)
        refine ⟨v', refs', _, h', hd.data.trans hs, hlk.trans (hlk'.congr hd.data) fun y hy he =>
          hxl (List.mem_singleton.mp he ▸ hy), w.visit h h₁ h' hx hid hd hxl, ?_⟩
        dsimp only
        rw [hcount, hn, List.length_append, Fate.length_goner]
        omega
      | stop s₁ st n lock =>
        rw [ho] at hfated
        obtain ⟨hn, v₁, h₁, hd⟩ := hfated
        refine ⟨v₁, refs, _, h₁, hd.data, .refl _, (Walked.nil h₁ l).visit h h₁ h₁ hx hid hd hxl, ?_⟩
        dsimp only
        rw [hn, List.length_append, Fate.length_goner, List.length_nil]
        omega

/-- **`ItemLRUPullTail`**: what has left its queue, and the number returned. -/
theorem itemLRUPullTail_walked (h : Inv b s v refs) (hrep : s.settings.tailRepairTime = 0) (o : ℕ)
    (curLru : LruStatus) (totalChunks : UInt64) (doEvict : Bool) (curHv : UInt32)
    (hfit : ∀ x ∈ v.items, s.heap.refcount x < 2 ^ 16) :
    ∃ v' refs' gone, Inv b (s.itemLRUPullTail o curLru totalChunks doEvict curHv).2 v' refs' ∧
      SameData s (s.itemLRUPullTail o curLru totalChunks doEvict curHv).2 ∧
      Leaks s curHv curLru (v.queue (o ||| curLru.val)) refs refs' ∧
      Walked o curLru totalChunks doEvict (v.queue (o ||| curLru.val)) s v v' gone ∧
      (s.itemLRUPullTail o curLru totalChunks doEvict curHv).1 =
        gone.length + s.idlePull o curLru totalChunks doEvict curHv := by
  unfold Store.itemLRUPullTail Store.idlePull
  dsimp only
  by_cases h0 : o = 0
  · rw [if_pos h0, if_pos h0]
    exact ⟨v, refs, [], h, .refl s, .refl _, .nil h _, rfl⟩
  rw [if_neg h0, if_neg h0, (h.queues.dll _).tail_eq]
  obtain ⟨v', refs', gone, h', hs, hlk, w, hn⟩ := pullLoop_walked b o curLru totalChunks doEvict curHv
    Store.pullFuel 5 s v refs _ [] 0 h (List.append_nil _).symm (fun x hx _ => h.refs_le hfit hx) hrep
  exact ⟨v', refs', gone, h', hs, hlk, w, by rw [hn, Nat.zero_add]⟩

end Inv

/-! ## The number returned -/

namespace Store

/-- From `s` to `s'` the item was unlinked, expired or flushed. -/
def Reclaimed (s s' : Store) (x : Ptr) : Prop := s.isReclaimable x ∧ (s'.flags x).linked = false

/-- From `s` to `s'` the item was unlinked, though it was live. -/
def Evicted (s s' : Store) (x : Ptr) : Prop := ¬ s.isReclaimable x ∧ (s'.flags x).linked = false

/-- From `s` to `s'` the item went to another queue. -/
def Requeued (s s' : Store) (x : Ptr) : Prop :=
  (s'.flags x).linked = true ∧ s'.heap.slabsClsid x ≠ s.heap.slabsClsid x

instance (s s' : Store) (x : Ptr) : Decidable (s.Reclaimed s' x) := inferInstanceAs (Decidable (_ ∧ _))

instance (s s' : Store) (x : Ptr) : Decidable (s.Evicted s' x) := inferInstanceAs (Decidable (_ ∧ _))

instance (s s' : Store) (x : Ptr) : Decidable (s.Requeued s' x) := inferInstanceAs (Decidable (_ ∧ _))

end Store

/-- The items that have left their queue are those reclaimed, evicted and moved. -/
theorem Walked.length_gone {b b' : Base} {o : ℕ} {curLru : LruStatus} {totalChunks : UInt64}
    {doEvict : Bool} {l gone : List Ptr} {s s' : Store} {v v' : View} {refs refs' : Ptr → ℕ}
    (w : Walked o curLru totalChunks doEvict l s v v' gone) (h : Inv b s v refs) (h' : Inv b' s' v' refs') :
    gone.length = v.items.countP (fun x => s.Reclaimed s' x) +
      v.items.countP (fun x => s.Evicted s' x) + v.items.countP (fun x => s.Requeued s' x) := by
  have hiff : ∀ x ∈ v.items, x ∈ gone ↔ ¬ ((s'.flags x).linked = true ∧
      s'.heap.slabsClsid x = s.heap.slabsClsid x) := fun x hx => by
    obtain ⟨a, rfl⟩ := h.alloc_chunk (h.items_alloc x hx)
    rw [show (s'.flags (.chunk a)).linked = true ↔ _ from h'.linked_iff a, ← h.kept_iff h' hx,
      w.kept _ hx, not_not]
  have hperm : gone.Perm (v.items.filter fun x => ¬ ((s'.flags x).linked = true ∧
      s'.heap.slabsClsid x = s.heap.slabsClsid x)) := by
    refine (List.perm_ext_iff_of_nodup w.nodup (h.table.holds.nodup.filter _)).mpr fun x => ?_
    rw [List.mem_filter, decide_eq_true_eq]
    exact ⟨fun hg => ⟨(w.mem x hg).2, (hiff x (w.mem x hg).2).mp hg⟩, fun hr => (hiff x hr.1).mpr hr.2⟩
  rw [hperm.length_eq, ← List.countP_eq_length_filter]
  generalize v.items = items
  induction items with
  | nil => rfl
  | cons x items ih =>
    simp only [List.countP_cons, ih]
    by_cases hl : (s'.flags x).linked = true <;> by_cases hr : s.isReclaimable x <;>
      by_cases hc : s'.heap.slabsClsid x = s.heap.slabsClsid x <;>
      simp [Store.Reclaimed, Store.Evicted, Store.Requeued, hl, hr, hc] <;> omega

/-- **`ItemLRUPullTail` reports what it did**, except that a walk over a `COLD` queue that does not
evict also counts the item it stops at, if it leaves that alone. -/
theorem pull_reports {b : Base} {s : Store} {v : View} {refs : Ptr → ℕ} (h : Inv b s v refs)
    (hrep : s.settings.tailRepairTime = 0) (hfit : ∀ x ∈ v.items, s.heap.refcount x < 2 ^ 16)
    (origId : ℕ) (curLru : LruStatus) (totalChunks : UInt64) (doEvict : Bool) (curHv : UInt32) :
    let r := s.itemLRUPullTail origId curLru totalChunks doEvict curHv
    let did := v.items.countP (fun x => s.Reclaimed r.2 x) +
      v.items.countP (fun x => s.Evicted r.2 x) + v.items.countP (fun x => s.Requeued r.2 x)
    let idle := s.idlePull origId curLru totalChunks doEvict curHv
    r.1 = did + idle ∧ (r.1 = did ↔ idle = 0) ∧ (curLru ≠ .cold ∨ doEvict = true → idle = 0) := by
  intro r did idle
  obtain ⟨v', refs', gone, h', -, -, w, hn⟩ := h.itemLRUPullTail_walked hrep origId curLru totalChunks
    doEvict curHv hfit
  have hdid : gone.length = did := w.length_gone h h'
  have hsum : r.1 = did + idle := hn.trans (by rw [hdid])
  refine ⟨hsum, by omega, fun hc => ?_⟩
  show s.idlePull origId curLru totalChunks doEvict curHv = 0
  unfold Store.idlePull
  dsimp only
  split_ifs
  · rfl
  · exact idleVisits_eq_zero _ totalChunks curHv hc _ _ _ _

/-- What the theorems about single calls ask for holds in every run. -/
theorem inv_of_reach {w : World} (h : Reach World.Init WorldStep w) (hs : w.store.Sparse) :
    ∃ b v refs, Inv b w.store v refs ∧ w.store.settings.tailRepairTime = 0 ∧
      ∀ x ∈ v.items, w.store.heap.refcount x < 2 ^ 16 := by
  obtain ⟨refs, ht⟩ := tracked_of_reach h
  obtain ⟨v, hv⟩ := ht.inv
  refine ⟨_, v, refs, hv, ht.settings.tailRepairTime, fun x hx => ?_⟩
  exact (hs x ((hv.live x).mpr (hv.items_alloc x hx))).trans (by norm_num)

/-- An item that has expired is reclaimed, and counted. -/
theorem pull_reports_expired :
    let s := (smallWorld.run (datedOps ++ [.remove (.chunk 4192), .flush 100 0, .tick 101])).store
    let r := s.itemLRUPullTail 1 .cold 0 true 1
    r.1 = 1 ∧ s.Reclaimed r.2 (.chunk 4192) ∧ ∃ b v refs, Inv b s v refs ∧
      r.1 = v.items.countP (fun x => s.Reclaimed r.2 x) +
        v.items.countP (fun x => s.Evicted r.2 x) + v.items.countP (fun x => s.Requeued r.2 x) := by
  obtain ⟨hr, hs⟩ := reach_plays (.chunk 4192)
    (datedOps ++ [.remove (.chunk 4192), .flush 100 0, .tick 101]) smallWorld_init (by decide)
  obtain ⟨b, v, refs, hv, hrep, hfit⟩ := inv_of_reach hr hs
  obtain ⟨hn, -, hidle⟩ := pull_reports hv hrep hfit 1 .cold 0 true 1
  rw [hidle (.inr rfl)] at hn
  exact ⟨by decide +kernel, by decide +kernel, b, v, refs, hv, hn⟩

/-- **A visit that does nothing is counted**: the walk stops at a live item of the `COLD` queue, leaves
it alone and returns 1. -/
theorem pull_reports_idle :
    let s := (smallWorld.run (datedOps ++ [.remove (.chunk 4192)])).store
    let r := s.itemLRUPullTail 1 .cold 0 false 1
    Reach World.Init WorldStep (smallWorld.run (datedOps ++ [.remove (.chunk 4192)])) ∧
      s.InQueue 129 (.chunk 4192) ∧ r.1 = 1 ∧ r.2.InQueue 129 (.chunk 4192) ∧
      r.2.lru.itemSizes 129 = s.lru.itemSizes 129 ∧ r.2.lru.heads 129 = s.lru.heads 129 ∧
      r.2.lru.tails 129 = s.lru.tails 129 ∧
      r.2.heap.refcount (.chunk 4192) = s.heap.refcount (.chunk 4192) :=
  ⟨(reach_plays (.chunk 4192) (datedOps ++ [.remove (.chunk 4192)]) smallWorld_init
    (by decide)).1, by decide +kernel⟩

/-! ## From one queue to another -/

theorem exists_of_getLast?_filter {α : Type} {p : α → Bool} {q : List α} {x : α}
    (h : (q.filter p).getLast? = some x) :
    ∃ l rest, q = l ++ x :: rest ∧ p x = true ∧ rest.filter p = [] := by
  obtain ⟨ys, hys⟩ := List.getLast?_eq_some_iff.mp h
  obtain ⟨l₁, l₂, rfl, -, h₂⟩ := List.filter_eq_append_iff.mp hys
  obtain ⟨l₃, rest, rfl, -, hx, hr⟩ := List.filter_eq_cons_iff.mp h₂
  exact ⟨l₁ ++ l₃, rest, by rw [List.append_assoc], hx, hr⟩

namespace Inv

variable {b : Base} {s : Store} {v : View} {refs : Ptr → ℕ} {c : ℕ} {curLru : LruStatus}
  {totalChunks : UInt64} {doEvict : Bool} {curHv : UInt32} {x : Ptr}

/-- There is one crawler node in a queue at most. -/
theorem no_items (h : Inv b s v refs) {q : ℕ} {l : List Ptr} (hs : l.Sublist (v.queue q))
    (hl : itemsOf l = []) : l = [] ∨ l = [.crawler q] ∧ s.isCrawlerNode (.crawler q) := by
  have hall : ∀ z ∈ l, s.isCrawlerNode z ∧ z = .crawler q := fun z hz =>
    (h.isCrawlerNode_iff (hs.subset hz)).resolve_right fun ⟨_, hi, _⟩ =>
      List.filter_eq_nil_iff.mp hl z hz (h.alloc_isChunk (h.items_alloc z hi))
  cases l with
  | nil => exact .inl rfl
  | cons y l =>
    obtain ⟨hc, rfl⟩ := hall y List.mem_cons_self
    have hnd := List.nodup_cons.mp ((h.queues.dll q).nodup.sublist hs)
    have hnil : l = [] := List.eq_nil_iff_forall_not_mem.mpr fun z hz =>
      hnd.1 ((hall z (List.mem_cons_of_mem _ hz)).2 ▸ hz)
    exact .inr ⟨by rw [hnil], hc⟩

/-- A walk over a queue without items does nothing. -/
theorem itemLRUPullTail_empty (h : Inv b s v refs) (hq : itemsOf (v.queue (c ||| curLru.val)) = [])
    (totalChunks : UInt64) (doEvict : Bool) (curHv : UInt32) :
    s.itemLRUPullTail c curLru totalChunks doEvict curHv = (0, s) := by
  unfold Store.itemLRUPullTail
  split_ifs
  · rfl
  dsimp only
  rw [(h.queues.dll _).tail_eq]
  rcases h.no_items (List.Sublist.refl _) hq with e | ⟨e, hc⟩
  · rw [e]
    rfl
  · have hp := h.prev_eq (show v.queue (c ||| curLru.val) = [] ++ .crawler _ :: [] from e)
    rw [e, List.getLast?_singleton, Store.pullFuel, Store.pullLoop, Store.pullItem, if_pos hc, hp]
    rfl

/-- **The walk comes first to the item nearest the tail**: behind it there is a crawler at most. -/
theorem itemLRUPullTail_last (h : Inv b s v refs) (hc : c ≠ 0)
    (hx : (itemsOf (v.queue (c ||| curLru.val))).getLast? = some x) (totalChunks : UInt64)
    (doEvict : Bool) (curHv : UInt32) : x ∈ v.items ∧ ∃ l rest fuel,
      v.queue (c ||| curLru.val) = l ++ x :: rest ∧
      s.itemLRUPullTail c curLru totalChunks doEvict curHv =
        Store.pullLoop (c ||| curLru.val) curLru totalChunks doEvict curHv (fuel + 1) 5 s (some x)
          0 := by
  obtain ⟨l, rest, hq, hxc, hrest⟩ := exists_of_getLast?_filter hx
  have hxq : x ∈ v.queue (c ||| curLru.val) := by rw [hq]; simp
  refine ⟨h.item_of_queue hxq hxc, l, rest, ?_⟩
  rw [Store.itemLRUPullTail, if_neg hc]
  dsimp only
  rw [(h.queues.dll _).tail_eq]
  cases rest with
  | nil => exact ⟨5, hq, by simp [hq, Store.pullFuel]⟩
  | cons y rest =>
    have hsub : (y :: rest).Sublist (v.queue (c ||| curLru.val)) := by
      rw [hq]
      exact (List.sublist_cons_self _ _).trans (List.sublist_append_right _ _)
    obtain ⟨e, hc⟩ := (h.no_items hsub hrest).resolve_left (by simp)
    rw [e] at hq
    have hq' : v.queue (c ||| curLru.val) = (l ++ [x]) ++ .crawler (c ||| curLru.val) :: [] := by
      rw [hq]
      simp
    refine ⟨4, by rw [hq, e], ?_⟩
    rw [hq', List.getLast?_append, List.getLast?_singleton, Option.some_or, Store.pullFuel,
      Store.pullLoop, Store.pullItem, if_pos hc, h.prev_eq hq']
    simp

/-- A live item over the limit of its `WARM` queue ends the walk. -/
theorem pullItem_over (hg : s.getsLock curHv x = true) (hr : ¬ s.isReclaimable x)
    (hrep : s.settings.tailRepairTime = 0) {id : ℕ} (ho : s.isOver id totalChunks)
    (doEvict : Bool) :
    s.fate id .warm totalChunks doEvict curHv x = .moved (s.sibling x .cold) ∧
      ∃ t lock, s.pullItem id .warm totalChunks doEvict curHv x = .stop t .cold 1 lock := by
  constructor
  · rw [Store.fate, if_pos hg, Store.lockedFate, if_neg hr, Store.switchFate, if_pos ho]
  · obtain ⟨lock, rc, st, -, he⟩ := pullItem_switch hg hr hrep id .warm totalChunks doEvict
    rw [he]
    dsimp only [Store.pullSwitch]
    have hset : (s.tryLock (s.hv x)).2.settings = s.settings ∧ (s.tryLock (s.hv x)).2.lru = s.lru := by
      obtain ⟨e, ht⟩ | ⟨l, e, ht⟩ := s.tryLock_cases (s.hv x) <;> rw [ht] <;> exact ⟨rfl, rfl⟩
    rw [hset.1, hset.2, if_pos (show _ < _ from ho)]
    exact ⟨_, _, rfl⟩

theorem not_isCrawlerNode (h : Inv b s v refs) (hx : x ∈ v.items) : ¬ s.isCrawlerNode x := by
  rcases h.isCrawlerNode_iff (h.mem_queue hx) with ⟨-, e⟩ | ⟨hnc, -⟩
  · have := h.alloc_isChunk (h.items_alloc x hx)
    rw [e] at this
    cases this
  · exact hnc

theorem getsLock_of_item (h : Inv b s v refs) (hx : x ∈ v.items) (hhv : s.hv x ≠ curHv)
    (hlock : (s.tryLock (s.hv x)).1 ≠ none) : s.getsLock curHv x = true := by
  simp [Store.getsLock, h.not_isCrawlerNode hx, hhv, Option.isSome_iff_ne_none.mpr hlock]

/-- **A `WARM` queue over its limit** gives the item nearest the tail to the `COLD` queue. -/
theorem warm_moves (h : Inv b s v refs) (hrep : s.settings.tailRepairTime = 0) (hc : c ≠ 0)
    (hx : (itemsOf (v.queue (c ||| LruStatus.warm.val))).getLast? = some x)
    (ho : s.isOver (c ||| LruStatus.warm.val) totalChunks) (hf : s.IsFree curHv x)
    (hle : refs x ≤ 65534) (doEvict : Bool) :
    ∃ v', Inv b (s.itemLRUPullTail c .warm totalChunks doEvict curHv).2 v' refs ∧
      (s.itemLRUPullTail c .warm totalChunks doEvict curHv).1 = 1 ∧
      Fate.Did (.moved (s.sibling x .cold)) (c ||| LruStatus.warm.val) s
        (s.itemLRUPullTail c .warm totalChunks doEvict curHv).2 v v' x := by
  obtain ⟨hxi, l, rest, fuel, hq, he⟩ := h.itemLRUPullTail_last hc hx totalChunks doEvict curHv
  have hxq : x ∈ v.queue (c ||| LruStatus.warm.val) := by rw [hq]; simp
  have hg := h.getsLock_of_item hxi hf.1 hf.2.1
  obtain ⟨hfate, t, lock, hp⟩ := pullItem_over hg hf.2.2 hrep ho doEvict
  have hd := h.pullItem_fate hxq hrep .warm totalChunks doEvict curHv fun _ => hle
  rw [he, Store.pullLoop]
  rw [hfate, hp] at hd
  rw [hp]
  obtain ⟨-, v', h', hd⟩ := hd
  exact ⟨v', h', rfl, hd⟩

/-- **What a walk over a `HOT` queue, or a `WARM` one within its limit, takes away** was expired or
flushed. -/
theorem leaves_reclaimable (h : Inv b s v refs) (hrep : s.settings.tailRepairTime = 0)
    (hfit : ∀ x ∈ v.items, s.heap.refcount x < 2 ^ 16) (hcold : curLru ≠ .cold)
    (hwarm : curLru = .warm → ¬ s.isOver (c ||| curLru.val) totalChunks)
    (hx : s.InQueue (c ||| curLru.val) x)
    (hn : ¬ (s.itemLRUPullTail c curLru totalChunks false curHv).2.InQueue (c ||| curLru.val) x) :
    s.Reclaimed (s.itemLRUPullTail c curLru totalChunks false curHv).2 x := by
  obtain ⟨v', refs', gone, h', -, -, w, -⟩ := h.itemLRUPullTail_walked hrep c curLru totalChunks false
    curHv hfit
  have hxm := h.inQueue_iff.mp hx
  obtain ⟨hxq, hxc⟩ := List.mem_filter.mp hxm
  have hcls := h.clsid_of_mem hxq
  have hxi := h.item_of_queue hxq hxc
  have hgone : x ∈ gone := by
    by_contra hg
    rw [← w.kept x hxi, hcls] at hg
    exact hn (h'.inQueue_iff.mpr (List.mem_filter.mpr ⟨hg, hxc⟩))
  have hout : x ∉ v'.items := fun hi => by
    rcases w.moved x hgone hi with ⟨e, -⟩ | ⟨e, -, ho⟩
    · exact hcold e
    · exact hwarm e ho
  refine ⟨(w.lost x hgone hout).resolve_right Bool.false_ne_true, ?_⟩
  obtain ⟨a, rfl⟩ := h.alloc_chunk (h.items_alloc x hxi)
  rw [← Bool.not_eq_true]
  exact fun hl => hout ((h'.linked_iff a).mp hl)

end Inv

theorem countP_erase_add {p : Ptr → Bool} {l : List Ptr} {x : Ptr} (hx : x ∈ l) (hp : p x = true) :
    l.countP p = (l.erase x).countP p + 1 := by
  rw [(List.perm_cons_erase hx).countP_eq, List.countP_cons_of_pos hp]

theorem getLast?_filter_of_pos {α : Type} {p : α → Bool} {q : List α} {x : α}
    (h : q.getLast? = some x) (hp : p x = true) : (q.filter p).getLast? = some x := by
  obtain ⟨l, rfl⟩ := List.getLast?_eq_some_iff.mp h
  rw [List.filter_append, List.filter_singleton, hp]
  simp

/-- The maintainer thread is on when a value is set, so the item is in the `HOT` queue. -/
def hotOps : List Op :=
  .maintainer true :: .tick 10 ::
    (putOps (.byte 97) 0 0 [118, 13, 10] 0 .set (.chunk 4192) ++ [.remove (.chunk 4192)])

end Mdb
