import Mdb.Store.Discipline
import Mdb.Store.Flow

/-!
# Allocation under pressure

Without the maintainer thread, `DoItemAlloc` walks over the `COLD` queue of the class, asks the slab
allocator, and if that has no chunk, walks again to evict.

* `Inv.free_of_gone`: the chunk of an item that is gone, and that nobody holds, is free again;
* `Inv.cold_stops`, `Inv.cold_stays`, `Inv.walk_drops`: what a walk does whose first item can be
  locked;
* `Inv.allocLoop_finds`: the loop, which needs two rounds;
* **`alloc_succeeds`**: if the item nearest the tail is free to go, there is a chunk.
-/

namespace Mdb

open Run

theorem Store.doItemRemove_env (s : Store) (x : Ptr) : (s.doItemRemove x).env = s.env := by
  unfold Store.doItemRemove Store.freeItem Store.doSlabsFree
  split_ifs <;> rfl

namespace Inv

variable {b : Base} {s s' : Store} {v v' : View} {refs refs' : Ptr → ℕ} {x : Ptr} {c id : ℕ}
  {curLru : LruStatus} {doEvict : Bool} {curHv : UInt32}

/-! ## Chunks -/

/-- **The chunk of an item that is gone** is on the freelist of its class again. -/
theorem free_of_gone (h : Inv b s v refs) (h' : Inv b s' v' refs') (hd : SameData s s')
    (hx : x ∈ v.alloc c) (hni : x ∉ v'.items) (hr : refs' x = 0) : x ∈ v'.free c := by
  have hna : ∀ c, x ∉ v'.alloc c := fun c hc => by
    have h1 := (h'.alloc_ok c x hc).pos
    rw [h'.refcount_unlinked ⟨c, hc⟩ hni, hr] at h1
    omega
  have hng : x ∉ b.moved.gone c := fun hg =>
    List.disjoint_of_nodup_append (h.slabs.alloc_nodup c) hx hg
  have hmem : x ∈ v'.free c ++ b.taken v' c := by
    refine (h'.slabs.perm c).mem_iff.mpr ?_
    rw [(hd.pages c).chunks]
    exact (h.slabs.perm c).mem_iff.mp (List.mem_append_right _ (mem_taken hx))
  rcases List.mem_append.mp hmem with hf | ht
  · exact hf
  · rcases List.mem_append.mp ht with ha | hg
    · exact absurd ha (hna c)
    · exact absurd hg hng

/-- With a chunk on the freelist, the allocator has one. -/
theorem doSlabsAlloc_of_free (h : Inv b s v refs) (hf : x ∈ v.free id) (size : ℕ) (tc : UInt32) :
    ∃ it tc' s', s.doSlabsAlloc size id tc = (some it, tc', s') := by
  have hid := h.slabs.inRange (.inl hf)
  have hne : v.free id ≠ [] := List.ne_nil_of_mem hf
  have hcur := (h.slabs.slCurr_ne_zero_iff id).mpr hne
  obtain ⟨it, l, hl⟩ := List.exists_cons_of_ne_nil hne
  have hslots : (s.slabs.slabclass id).slots = some it := by
    rw [h.slabs.freelists.slots, hl]
    rfl
  simp only [Store.doSlabsAlloc, if_pos hid, if_pos hcur, hslots]
  exact ⟨_, _, _, rfl⟩

/-! ## The walks -/

/-- The walk over a `COLD` queue ends at an item nearest the tail that is free. -/
theorem cold_stops (h : Inv b s v refs) (hrep : s.settings.tailRepairTime = 0) (hc : c ≠ 0)
    (hx : (itemsOf (v.queue (c ||| LruStatus.cold.val))).getLast? = some x)
    (hf : s.IsFree curHv x) (hle : refs x ≤ 65534) (tc : UInt64) (doEvict : Bool) :
    ∃ v', Inv b (s.itemLRUPullTail c .cold tc doEvict curHv).2 v' refs ∧
      (s.fate (c ||| LruStatus.cold.val) .cold tc doEvict curHv x).Did (c ||| LruStatus.cold.val) s
        (s.itemLRUPullTail c .cold tc doEvict curHv).2 v v' x := by
  obtain ⟨hxi, l, rest, fuel, hq, he⟩ := h.itemLRUPullTail_last hc hx tc doEvict curHv
  have hxq : x ∈ v.queue (c ||| LruStatus.cold.val) := by rw [hq]; simp
  have hd := h.pullItem_fate hxq hrep .cold tc doEvict curHv fun _ => hle
  obtain ⟨t, st, n, lock, hp⟩ := pullItem_stops (h.not_isCrawlerNode hxi) hf hrep
    (c ||| LruStatus.cold.val) tc doEvict
  rw [hp] at hd
  obtain ⟨-, v', h', hd⟩ := hd
  rw [he, Store.pullLoop, hp]
  exact ⟨v', h', hd⟩

/-- If it does not evict, and the maintainer thread is off, everything stays as it is; one outcome of
`TryLock` is used up. -/
theorem cold_stays (h : Inv b s v refs) (hrep : s.settings.tailRepairTime = 0)
    (hoff : s.settings.lruMaintainerThread = false) (hc : c ≠ 0)
    (hx : (itemsOf (v.queue (c ||| LruStatus.cold.val))).getLast? = some x)
    (hf : s.IsFree curHv x) (hle : refs x ≤ 65534) (tc : UInt64) :
    ∃ v', Inv b (s.itemLRUPullTail c .cold tc false curHv).2 v' refs ∧
      Quiet s (s.itemLRUPullTail c .cold tc false curHv).2 v v' ∧
      (s.itemLRUPullTail c .cold tc false curHv).2.itemLocks = s.itemLocks ∧
      (s.itemLRUPullTail c .cold tc false curHv).2.env.tryLocks =
        fun n => s.env.tryLocks (n + 1) := by
  obtain ⟨v', h', hd⟩ := h.cold_stops hrep hc hx hf hle tc false
  obtain ⟨hxi, l, rest, fuel, hq, he⟩ := h.itemLRUPullTail_last hc hx tc false curHv
  have hg := h.getsLock_of_item hxi hf.1 hf.2.1
  have hfate : s.fate (c ||| LruStatus.cold.val) .cold tc false curHv x = .stays := by
    rw [Store.fate, if_pos hg, Store.lockedFate, if_neg hf.2.2]
    simp [Store.switchFate, hoff]
  rw [hfate] at hd
  refine ⟨v', h', ⟨hd.data, funext fun y => (hd.time y).resolve_right fun hr => ?_, hd.items,
    hd.queue⟩, ?_⟩
  · cases hr.2.1
  obtain ⟨lock, rc, st, hlock, hp⟩ := pullItem_switch hg hf.2.2 hrep (c ||| LruStatus.cold.val) .cold
    tc false
  obtain ⟨t, ht⟩ : ∃ t, t = ({ (s.tryLock (s.hv x)).2 with
    heap := { s.heap with refcount := rc }, itemStats := st } : Store) := ⟨_, rfl⟩
  have hstop : t.pullSwitch (c ||| LruStatus.cold.val) .cold tc false x (s.hv x) lock =
      .stop t .hot 1 lock := by
    have hoff' : t.settings.lruMaintainerThread = false := by
      rw [ht]
      obtain ⟨e, hl⟩ | ⟨l, e, hl⟩ := s.tryLock_cases (s.hv x) <;> rw [hl] <;> exact hoff
    simp [Store.pullSwitch, hoff']
  rw [he, Store.pullLoop, hp, ← ht, hstop]
  dsimp only [Store.pullFinish, Store.tryLockUnlock]
  rw [if_neg (by simp), Store.doItemRemove_itemLocks, Store.doItemRemove_env, ht]
  dsimp only
  rw [hlock, List.erase_cons_head]
  refine ⟨rfl, ?_⟩
  dsimp only [Store.tryLock]
  split_ifs <;> rfl

/-- An item nearest the tail that is dropped stays so, however the walk goes on. -/
theorem walk_drops (h : Inv b s v refs) (hrep : s.settings.tailRepairTime = 0)
    (hfit : ∀ x ∈ v.items, s.heap.refcount x < 2 ^ 16) (hlru : curLru = .warm ∨ curLru = .cold)
    (hc : c ≠ 0)
    (hx : (itemsOf (v.queue (c ||| curLru.val))).getLast? = some x)
    {tc : UInt64} (hf : s.fate (c ||| curLru.val) curLru tc doEvict curHv x = .dropped)
    (h' : Inv b (s.itemLRUPullTail c curLru tc doEvict curHv).2 v' refs') : x ∉ v'.items := by
  obtain ⟨hxi, l, rest, fuel, hq, he⟩ := h.itemLRUPullTail_last hc hx tc doEvict curHv
  have hxq : x ∈ v.queue (c ||| curLru.val) := by rw [hq]; simp
  have hxl := h.not_mem_before hq
  have hd := h.pullItem_fate hxq hrep curLru tc doEvict curHv fun _ => h.refs_le hfit hxq
  -- the store tells which items are linked
  have hsame : ∀ v₂ refs₂, Inv b (s.itemLRUPullTail c curLru tc doEvict curHv).2 v₂ refs₂ →
      x ∉ v₂.items → x ∉ v'.items := fun v₂ refs₂ h₂ hn hi => by
    obtain ⟨a, rfl⟩ := h.alloc_chunk (h.items_alloc x hxi)
    exact hn ((h₂.linked_iff a).mp ((h'.linked_iff a).mpr hi))
  rw [he, Store.pullLoop] at hsame
  rw [hf] at hd
  cases hp : s.pullItem (c ||| curLru.val) curLru tc doEvict curHv x with
  | skip =>
    rw [hp] at hd
    have hxc := h.alloc_isChunk (h.items_alloc x hxi)
    rw [show x = .crawler _ from hd] at hxc
    cases hxc
  | stop t st n lock =>
    rw [hp] at hd hsame
    obtain ⟨-, v₁, h₁, hd⟩ := hd
    refine hsame v₁ refs h₁ ?_
    rw [hd.items]
    exact h.table.holds.nodup.not_mem_erase
  | next s₁ n =>
    rw [hp] at hd hsame
    obtain ⟨-, v₁, refs₁, h₁, hd, hlk⟩ := hd
    have hr₁ : refs₁ = refs := hlk.none hlru
    obtain ⟨rest₁, hq₁⟩ := Fate.queue_front .dropped hq hxl
    obtain ⟨v₂, refs₂, gone, h₂, -, -, w, -⟩ := pullLoop_walked b c curLru tc doEvict curHv fuel 4 s₁ v₁
      refs₁ l rest₁ (0 + n) h₁ (by rw [hd.queue]; exact hq₁)
      (fun y hy _ => by
        rw [hr₁]
        exact h.refs_le hfit (show y ∈ v.queue (c ||| curLru.val) by rw [hq]; simp [hy]))
      (by rw [hd.data.settings]; exact hrep)
    rw [h.prev_eq hq] at hsame
    refine hsame v₂ refs₂ h₂ fun hi => ?_
    have := w.sub x hi
    rw [hd.items] at this
    exact h.table.holds.nodup.not_mem_erase this

end Inv

/-! ## The loop -/

section Loop

variable {s s₁ s₂ : Store} {ntotal id n : ℕ} {curHv : UInt32} {tc tc' : UInt32} {it : Ptr}

theorem Store.allocLoop_some (hoff : s.settings.lruMaintainerThread = false)
    (h : (s.itemLRUPullTail id .cold 0 false curHv).2.doSlabsAlloc ntotal id tc = (some it, tc', s₂))
    (fuel : ℕ) : Store.allocLoop ntotal id curHv (fuel + 1) s tc n = (some it, n, s₂) := by
  simp only [Store.allocLoop, if_neg (hoff.trans_ne Bool.false_ne_true), h]

theorem Store.allocLoop_none (hoff : s.settings.lruMaintainerThread = false)
    (h : (s.itemLRUPullTail id .cold 0 false curHv).2.doSlabsAlloc ntotal id tc = (none, tc', s₂))
    (hoff₂ : s₂.settings.lruMaintainerThread = false) (fuel : ℕ) :
    ∃ tc₂, Store.allocLoop ntotal id curHv (fuel + 1) s tc n =
      Store.allocLoop ntotal id curHv fuel (s₂.itemLRUPullTail id .cold 0 true curHv).2 tc₂ (n + 1) := by
  simp only [Store.allocLoop, if_neg (hoff.trans_ne Bool.false_ne_true), h,
    if_neg (hoff₂.trans_ne Bool.false_ne_true)]
  exact ⟨_, rfl⟩

theorem Store.tryLock_ne_none_iff {hv : UInt32} : (s.tryLock hv).1 ≠ none ↔
    s.env.tryLocks 0 = true ∧ Store.itemLock hv ∉ s.itemLocks := by
  dsimp only [Store.tryLock]
  split_ifs with h
  · exact iff_of_true (by simp) h
  · exact iff_of_false (by simp) h

end Loop

namespace Inv

variable {b : Base} {s : Store} {v : View} {refs : Ptr → ℕ} {x : Ptr} {id : ℕ} {curHv : UInt32}

/-- The chunk of an item of a `COLD` queue belongs to the class of the queue. -/
theorem mem_alloc_of_cold (h : Inv b s v refs) (hid : id < 64) (hx : x ∈ v.items)
    (hq : x ∈ v.queue (id ||| LruStatus.cold.val)) : x ∈ v.alloc id := by
  have hor := (clearLru_or id .cold).1
  rw [show clearLru id = id from Nat.mod_eq_of_lt hid] at hor
  have := h.mem_alloc_of_queue hq (h.alloc_isChunk (h.items_alloc x hx))
  rwa [hor] at this

/-- A walk over a `COLD` queue that does not evict: items that are gone were expired or flushed. -/
theorem cold_reclaims (h : Inv b s v refs) (hrep : s.settings.tailRepairTime = 0)
    (hfit : ∀ x ∈ v.items, s.heap.refcount x < 2 ^ 16) (id : ℕ) (tc : UInt64) (curHv : UInt32) :
    ∃ v', Inv b (s.itemLRUPullTail id .cold tc false curHv).2 v' refs ∧
      SameData s (s.itemLRUPullTail id .cold tc false curHv).2 ∧ (∀ y ∈ v'.items, y ∈ v.items) ∧
      ∀ y ∈ v.items, y ∉ v'.items → y ∈ v.queue (id ||| LruStatus.cold.val) ∧ s.isReclaimable y := by
  obtain ⟨v', refs', gone, h', hd, hlk, w, -⟩ := h.itemLRUPullTail_walked hrep id .cold tc false curHv
    hfit
  rw [hlk.none (.inr rfl)] at h'
  refine ⟨v', h', hd, w.sub, fun y hy hn => ?_⟩
  have hg : y ∈ gone := by
    by_contra hg
    exact hn ((h.kept_iff h' hy).mp ((w.kept y hy).mpr hg)).1
  exact ⟨(w.mem y hg).1, (w.lost y hg hn).resolve_right Bool.false_ne_true⟩

/-- `r` is the result of a loop of `DoItemAlloc` that has found a chunk. Of the items, only `x` and some
expired or flushed ones of the `COLD` queue are gone. -/
def Finds (b : Base) (s : Store) (v : View) (refs : Ptr → ℕ) (ntotal id : ℕ) (x : Ptr)
    (r : Option Ptr × ℕ × Store) : Prop :=
  ∃ it n s' s₀ v₀ tc tc', r = (some it, n, s') ∧ Inv b s₀ v₀ refs ∧ SameData s s₀ ∧
    s₀.doSlabsAlloc ntotal id tc = (some it, tc', s') ∧
    ∀ y ∈ v.items, y ∉ v₀.items → y ∈ v.queue (id ||| LruStatus.cold.val) ∧
      (s.isReclaimable y ∨ y = x)

theorem Finds.quiet_left {s₁ : Store} {v₁ : View} {ntotal : ℕ} {r : Option Ptr × ℕ × Store}
    (q : Quiet s s₁ v v₁) (h : Finds b s₁ v₁ refs ntotal id x r) : Finds b s v refs ntotal id x r := by
  obtain ⟨it, n, s', s₀, v₀, tc, tc', hr, h₀, hd, hs, hlost⟩ := h
  refine ⟨it, n, s', s₀, v₀, tc, tc', hr, h₀, q.data.trans hd, hs, fun y hy hn => ?_⟩
  have := hlost y (by rw [q.items]; exact hy) hn
  rwa [q.queue, q.data.isReclaimable (by rw [q.time])] at this

/-- **After an eviction** the next round finds the chunk. -/
theorem allocLoop_evicted (h : Inv b s v refs) (hrep : s.settings.tailRepairTime = 0)
    (hfit : ∀ x ∈ v.items, s.heap.refcount x < 2 ^ 16)
    (hoff : s.settings.lruMaintainerThread = false) (hev : s.settings.evictToFree ≠ 0)
    (hid : id ≠ 0) (hid64 : id < 64)
    (hx : (itemsOf (v.queue (id ||| LruStatus.cold.val))).getLast? = some x)
    (hrefs : refs x = 0) (hf : s.IsFree curHv x) (ntotal : ℕ) (tc : UInt32) (n fuel : ℕ) :
    Finds b s v refs ntotal id x (Store.allocLoop ntotal id curHv (fuel + 1)
      (s.itemLRUPullTail id .cold 0 true curHv).2 tc n) := by
  obtain ⟨hxi, -⟩ := h.itemLRUPullTail_last hid hx 0 true curHv
  have hxq := (List.mem_filter.mp (List.mem_of_getLast? hx)).1
  obtain ⟨v₁, h₁, hd₁⟩ := h.cold_stops hrep hid hx hf (by rw [hrefs]; omega) 0 true
  have hfate : s.fate (id ||| LruStatus.cold.val) .cold 0 true curHv x = .dropped := by
    rw [Store.fate, if_pos (h.getsLock_of_item hxi hf.1 hf.2.1), Store.lockedFate, if_neg hf.2.2]
    simp [Store.switchFate, hev]
  rw [hfate] at hd₁
  have hitems : ∀ y, y ∈ v₁.items ↔ y ≠ x ∧ y ∈ v.items := fun y => by
    rw [hd₁.items]
    exact h.table.holds.nodup.mem_erase_iff
  obtain ⟨s₁, hs₁⟩ : ∃ s₁, s₁ = (s.itemLRUPullTail id .cold 0 true curHv).2 := ⟨_, rfl⟩
  rw [← hs₁] at h₁ hd₁ ⊢
  have hset := hd₁.data.settings
  obtain ⟨v₂, h₂, hd₂, hsub₂, hlost₂⟩ := h₁.cold_reclaims (by rw [hset]; exact hrep)
    (fun y hy => by
      have hi := ((hitems y).mp hy).2
      have := hfit y hi
      rwa [h.refcount_item hi, ← h₁.refcount_item hy] at this) id 0 curHv
  have hd := hd₁.data.trans hd₂
  have hfree := h.free_of_gone h₂ hd (h.mem_alloc_of_cold hid64 hxi hxq)
    (fun hi => ((hitems x).mp (hsub₂ x hi)).1 rfl) hrefs
  obtain ⟨it, tc', s', hs⟩ := h₂.doSlabsAlloc_of_free hfree ntotal tc
  refine ⟨it, n, s', _, v₂, tc, tc', Store.allocLoop_some (by rw [hset]; exact hoff) hs fuel, h₂, hd,
    hs, fun y hy hn => ?_⟩
  by_cases e : y = x
  · exact ⟨e ▸ hxq, .inr e⟩
  obtain ⟨hq, hr⟩ := hlost₂ y ((hitems y).mpr ⟨e, hy⟩) hn
  have ht := (hd₁.time y).resolve_right fun hc => by cases hc.2.1
  refine ⟨?_, .inl ((hd₁.data.isReclaimable ht).mp hr)⟩
  rw [hd₁.queue, Fate.queue, Function.update_self] at hq
  exact List.mem_of_mem_erase hq

/-- **The loop of `DoItemAlloc` finds a chunk** in two rounds, if the item nearest the tail of the
`COLD` queue is not locked, not referenced and not of hash value `curHv`. -/
theorem allocLoop_finds (h : Inv b s v refs) (hrep : s.settings.tailRepairTime = 0)
    (hfit : ∀ x ∈ v.items, s.heap.refcount x < 2 ^ 16)
    (hoff : s.settings.lruMaintainerThread = false) (hev : s.settings.evictToFree ≠ 0)
    (hid : id ≠ 0) (hid64 : id < 64)
    (hx : (itemsOf (v.queue (id ||| LruStatus.cold.val))).getLast? = some x)
    (hrc : s.heap.refcount x = 1) (hhv : s.hv x ≠ curHv)
    (hlock : Store.itemLock (s.hv x) ∉ s.itemLocks) (h0 : s.env.tryLocks 0 = true)
    (h1 : s.env.tryLocks 1 = true) (ntotal : ℕ) (tc : UInt32) (n fuel : ℕ) :
    Finds b s v refs ntotal id x (Store.allocLoop ntotal id curHv (fuel + 2) s tc n) := by
  have hxq := (List.mem_filter.mp (List.mem_of_getLast? hx)).1
  obtain ⟨hxi, -⟩ := h.itemLRUPullTail_last hid hx 0 false curHv
  have hrefs : refs x = 0 := by rw [h.refcount_item hxi] at hrc; omega
  have htry : (s.tryLock (s.hv x)).1 ≠ none := Store.tryLock_ne_none_iff.mpr ⟨h0, hlock⟩
  obtain ⟨s₁, hs₁⟩ : ∃ s₁, s₁ = (s.itemLRUPullTail id .cold 0 false curHv).2 := ⟨_, rfl⟩
  obtain ⟨v₁, h₁, hd₁, -, hlost₁⟩ := h.cold_reclaims hrep hfit id 0 curHv
  rw [← hs₁] at h₁ hd₁
  obtain ⟨sl, e, tc', hf, hun⟩ | ⟨it, tc', s₂, free', hf, -⟩ := h₁.slabs.doSlabsAlloc ntotal id tc
  swap
  · exact ⟨it, n, s₂, s₁, v₁, tc, tc', Store.allocLoop_some hoff (hs₁ ▸ hf) _, h₁, hd₁, hf,
      fun y hy hn => ⟨(hlost₁ y hy hn).1, .inl (hlost₁ y hy hn).2⟩⟩
  have hlive : ¬ s.isReclaimable x := fun hr => by
    -- its chunk would be free now
    have hfate : s.fate (id ||| LruStatus.cold.val) .cold 0 false curHv x = .dropped := by
      rw [Store.fate, if_pos (h.getsLock_of_item hxi hhv htry), Store.lockedFate, if_pos hr]
    have hgone := h.walk_drops hrep hfit (.inr rfl) hid hx hfate (hs₁ ▸ h₁)
    have hfree := h.free_of_gone h₁ hd₁ (h.mem_alloc_of_cold hid64 hxi hxq) hgone hrefs
    obtain ⟨it, tc₂, s₂, hs⟩ := h₁.doSlabsAlloc_of_free hfree ntotal tc
    rw [hs] at hf
    cases hf
  -- so the first walk has done nothing, and the item can be locked once more
  obtain ⟨v₁, h₁, q₁, hl₁, he₁⟩ := h.cold_stays hrep hoff hid hx ⟨hhv, htry, hlive⟩
    (h.refs_le hfit hxq) 0
  rw [← hs₁] at h₁ q₁ hl₁ he₁
  have hlocks := doSlabsAlloc_locks s₁ id ntotal tc
  rw [hf] at hlocks
  obtain ⟨s₂, hs₂⟩ : ∃ s₂, s₂ = ({ s₁ with slabs := sl, env := e } : Store) := ⟨_, rfl⟩
  have h₂ : Inv b s₂ v₁ refs := hs₂ ▸ h₁.slabs_unchanged e hun
  have q₂ : Quiet s s₂ v v₁ := by
    refine q₁.trans ?_
    rw [hs₂]
    exact ⟨⟨rfl, rfl, rfl, rfl, rfl, rfl, fun _ => rfl, rfl, rfl, rfl, rfl, rfl, hun.pages.cls,
      hun.pages.powerLargest⟩, rfl, rfl, rfl⟩
  rw [← hs₂] at hf hlocks
  have htry₂ : s₂.env.tryLocks = fun n => s.env.tryLocks (n + 1) :=
    (congrArg Prod.snd hlocks).trans he₁
  have hlock₂ : s₂.itemLocks = s.itemLocks := (congrArg Prod.fst hlocks).trans hl₁
  have hfree₂ : s₂.IsFree curHv x := by
    refine ⟨by rw [q₂.data.hv]; exact hhv, Store.tryLock_ne_none_iff.mpr ⟨by rw [htry₂]; exact h1,
      by rw [hlock₂, q₂.data.hv]; exact hlock⟩, ?_⟩
    rw [q₂.data.isReclaimable (by rw [q₂.time])]
    exact hlive
  have hset := q₂.data.settings
  have hoff₂ : s₂.settings.lruMaintainerThread = false := by rw [hset]; exact hoff
  obtain ⟨tc₂, he⟩ := Store.allocLoop_none (n := n) hoff (hs₁ ▸ hf) hoff₂ (fuel + 1)
  rw [he]
  refine .quiet_left q₂ (h₂.allocLoop_evicted (by rw [hset]; exact hrep) (fun y hy => ?_) hoff₂
    (by rw [hset]; exact hev) hid hid64 (by rw [q₂.queue]; exact hx) hrefs hfree₂ ntotal tc₂ (n + 1)
    fuel)
  have hy' : y ∈ v.items := by rw [← q₂.items]; exact hy
  have := hfit y hy'
  rwa [h.refcount_item hy', ← h₂.refcount_item hy] at this

/-- Items stay linked while a new one gets its chunk and its header. -/
theorem fillHeader_linked (h : Inv b s v refs) {s' : Store} {it y : Ptr} {ntotal : ℕ} {tc tc' : UInt32}
    (hs : s.doSlabsAlloc ntotal id tc = (some it, tc', s')) (hy : y ∈ v.items)
    {st : ℕ → ItemStats} {key : Key} {flags : Int32} {exptime : UInt32} {nbytes : ℕ} :
    ((({ s' with itemStats := st } : Store).fillHeader it id key flags exptime nbytes).flags y).linked =
      true := by
  obtain ⟨c, hc⟩ := h.items_alloc y hy
  obtain ⟨_, _, _, hf, -⟩ | ⟨it', _, s₁, free', hf, -, hna, -, fr⟩ := h.slabs.doSlabsAlloc ntotal id tc
  · rw [hs] at hf
    cases hf
  rw [hs] at hf
  cases hf
  have hne : y ≠ it := fun e => hna c (mem_taken (e ▸ hc))
  have hsame := (fr.same y (.inr ⟨c, mem_taken hc⟩)).1.itFlags
  have hl := h.linked_of_mem hy
  rw [← hsame] at hl
  simpa only [Store.flags, Store.fillHeader, Function.update_of_ne hne] using hl

end Inv

/-- The small store with one page of memory, which is one chunk of the largest class. -/
def tightConfig : Config := { smallConfig with limit := 256 }

theorem tightConfig_ok : tightConfig.Ok :=
  ⟨⟨by decide, by decide, by decide, by decide, by decide, by decide, by decide⟩,
    ⟨rfl, rfl⟩, rfl, rfl, by decide, by decide⟩

/-- The store with one page of memory, in which a value takes the one chunk. -/
def tightWorld : World :=
  (tightConfig.world (fun _ => 0) .willing).run (.tick 100 ::
    putOps (.byte 97) 0 0 (List.replicate 150 118 ++ [13, 10]) 0 .set (.chunk 4096) ++
      [.remove (.chunk 4096)])

end Mdb
