import Mdb.State

/-!
# LRU queues

`DoItemLinkQ`, `DoItemUnlinkQ` and `CrawlerCrawlQ`, store by store, and what they do to the lists
the queues represent.

* `QueuesOk next prev lru queue`: the 256 queues represent the lists `queue`;
* `QueuesOk.linkQ`: linking appends at the tail; `QueuesOk.unlinkQ`: unlinking erases;
* `QueuesOk.crawl`: the crawler moves one place towards the head; `QueuesOk.crawl_head`: at the head
  it steps out of the list.
-/

namespace Mdb

open Dll

namespace Store

/-- `DoItemLinkQ(it, is_crawler)`: the new node goes to the *tail*. -/
def doItemLinkQ (s : Store) (it : Ptr) (isCrawler : Bool) : Store :=
  let id := s.heap.slabsClsid it
  let prev := Function.update s.heap.prev it (s.lru.tails id)
  let next := Function.update s.heap.next it none
  let next := setAt next (prev it) (some it)
  { s with
    heap := { s.heap with next := next, prev := prev }
    lru :=
      { heads := if s.lru.heads id = none then Function.update s.lru.heads id (some it)
          else s.lru.heads
        tails := Function.update s.lru.tails id (some it)
        itemSizes := if isCrawler then s.lru.itemSizes
          else Function.update s.lru.itemSizes id (s.lru.itemSizes id + 1) } }

/-- `DoItemUnlinkQ(it, is_crawler)`. -/
def doItemUnlinkQ (s : Store) (it : Ptr) (isCrawler : Bool) : Store :=
  let id := s.heap.slabsClsid it
  let prev := setAt s.heap.prev (s.heap.next it) (s.heap.prev it)
  let next := setAt s.heap.next (prev it) (s.heap.next it)
  { s with
    heap := { s.heap with next := next, prev := prev }
    lru :=
      { heads := if s.lru.heads id = some it then
            Function.update s.lru.heads id (s.heap.next it)
          else s.lru.heads
        tails := if s.lru.tails id = some it then
            Function.update s.lru.tails id (s.heap.prev it)
          else s.lru.tails
        itemSizes := if isCrawler then s.lru.itemSizes
          else Function.update s.lru.itemSizes id (s.lru.itemSizes id - 1) } }

/-- `CrawlerCrawlQ(it)`: the item stepped over, or `none` at the head. -/
def crawlerCrawlQ (s : Store) (it : Ptr) : Option Ptr × Store :=
  let id := s.heap.slabsClsid it
  match s.heap.prev it with
  | none =>
    -- at the head: only the head pointer and the next node let go of the crawler
    match s.heap.next it with
    | none => (none, s)
    | some z =>
      (none, { s with
        heap := { s.heap with prev := Function.update s.heap.prev z none }
        lru := { s.lru with heads := Function.update s.lru.heads id (some z) } })
  | some y =>
    let next₁ := Function.update s.heap.next y (s.heap.next it)
    let prev₁ := setAt s.heap.prev (s.heap.next it) (some y)
    let next₂ := Function.update next₁ it (some y)
    let prev₂ := Function.update prev₁ it (prev₁ y)
    let prev₃ := Function.update prev₂ y (some it)
    let next₃ := setAt next₂ (prev₃ it) (some it)
    (next₃ it, { s with
      heap := { s.heap with next := next₃, prev := prev₃ }
      lru := { s.lru with
        heads := if s.lru.heads id = some y then Function.update s.lru.heads id (some it)
          else s.lru.heads
        tails := if s.lru.tails id = some it then Function.update s.lru.tails id (some y)
          else s.lru.tails } })

end Store

/-! ## The lists the queues represent -/

/-- **The queues represent the lists `queue`**, no node is in two of them, and `item_sizes_` counts
the items. -/
structure QueuesOk (next prev : Ptr → Option Ptr) (lru : Lru) (queue : ℕ → List Ptr) : Prop where
  dll : ∀ q, IsDll next prev (lru.heads q) (lru.tails q) (queue q)
  disjoint : ∀ q q' x, x ∈ queue q → x ∈ queue q' → q = q'
  size : ∀ q, lru.itemSizes q = UInt32.ofNat ((queue q).countP Ptr.isChunk)

/-- The queues of a store represent the lists `queue`. -/
def Store.Queues (s : Store) (queue : ℕ → List Ptr) : Prop :=
  QueuesOk s.heap.next s.heap.prev s.lru queue

namespace QueuesOk

variable {s : Store} {queue : ℕ → List Ptr} {it : Ptr}

theorem ite_update {α : Type} {p : Prop} [Decidable p] (f : ℕ → α) (i : ℕ) (v : α) (q : ℕ) :
    (if p then Function.update f i v else f) q =
      if q = i then (if p then v else f i) else f q := by
  split_ifs with h1 h2 h2
  · rw [h2, Function.update_self]
  · rw [Function.update_of_ne h2]
  · rw [h2]
  · rfl

theorem empty {next prev : Ptr → Option Ptr} {lru : Lru} (hh : ∀ q, lru.heads q = none)
    (ht : ∀ q, lru.tails q = none) (hs : ∀ q, lru.itemSizes q = 0) :
    QueuesOk next prev lru fun _ => [] where
  dll q := by rw [hh q, ht q]; exact isDll_nil
  disjoint q q' x h := by cases h
  size q := by rw [hs q]; rfl

/-- Representation depends on the links of queued nodes only. -/
theorem congr {next prev next' prev' : Ptr → Option Ptr} {lru : Lru}
    (h : QueuesOk next prev lru queue)
    (hf : ∀ q, ∀ x ∈ queue q, next' x = next x ∧ prev' x = prev x) :
    QueuesOk next' prev' lru queue where
  dll q := (h.dll q).congr (fun x hx => (hf q x hx).1) (fun x hx => (hf q x hx).2)
  disjoint := h.disjoint
  size := h.size

/-- The lists are determined by the pointers. -/
theorem unique {next prev : Ptr → Option Ptr} {lru : Lru} {queue' : ℕ → List Ptr}
    (h : QueuesOk next prev lru queue) (h' : QueuesOk next prev lru queue') : queue' = queue := by
  funext q
  have e := (h.dll q).wellFormed.visits (max (queue q).length (queue' q).length) (le_max_left _ _)
  have e' := (h'.dll q).wellFormed.visits (max (queue q).length (queue' q).length)
    (le_max_right _ _)
  exact e'.symm.trans e

theorem mem_update_append (queue : ℕ → List Ptr) (q q' : ℕ) (x y : Ptr) :
    x ∈ Function.update queue q (queue q ++ [y]) q' ↔ x ∈ queue q' ∨ (q' = q ∧ x = y) := by
  by_cases e : q' = q
  · subst e; simp
  · simp [e]

theorem mem_update_erase (queue : ℕ → List Ptr) (q q' : ℕ) (x y : Ptr) (hd : (queue q).Nodup) :
    x ∈ Function.update queue q ((queue q).erase y) q' ↔
      x ∈ queue q' ∧ (q' = q → x ≠ y) := by
  by_cases e : q' = q
  · subst e; simp [hd.mem_erase_iff, and_comm]
  · simp [e]

/-- The nodes whose links a `DoItemLinkQ` leaves alone. -/
theorem linkQ_frame (h : QueuesOk s.heap.next s.heap.prev s.lru queue) (cr : Bool) {y : Ptr}
    (hne : y ≠ it) (hy : y ∉ queue (s.heap.slabsClsid it)) :
    (s.doItemLinkQ it cr).heap.next y = s.heap.next y ∧
      (s.doItemLinkQ it cr).heap.prev y = s.heap.prev y := by
  have ht : s.lru.tails (s.heap.slabsClsid it) ≠ some y := by
    rw [(h.dll _).tail_eq]
    exact fun e => hy (List.mem_of_getLast? e)
  have hp : setAt (Function.update s.heap.next it none) (s.lru.tails (s.heap.slabsClsid it))
        (some it) y = s.heap.next y ∧
      Function.update s.heap.prev it (s.lru.tails (s.heap.slabsClsid it)) y = s.heap.prev y :=
    pushBack_frame hne ht
  simpa [Store.doItemLinkQ] using hp

/-- **Linking appends**: the node becomes the last of the queue of its `slabs_clsid`. -/
theorem linkQ (h : QueuesOk s.heap.next s.heap.prev s.lru queue) (hnew : ∀ q, it ∉ queue q) :
    QueuesOk (s.doItemLinkQ it (!it.isChunk)).heap.next (s.doItemLinkQ it (!it.isChunk)).heap.prev
      (s.doItemLinkQ it (!it.isChunk)).lru
      (Function.update queue (s.heap.slabsClsid it) (queue (s.heap.slabsClsid it) ++ [it])) where
  dll q := by
    by_cases e : q = s.heap.slabsClsid it
    · subst e
      have := (h.dll (s.heap.slabsClsid it)).pushBack (hnew _)
      simpa [Store.doItemLinkQ, ite_update] using this
    · rw [Function.update_of_ne e]
      have hd : IsDll s.heap.next s.heap.prev ((s.doItemLinkQ it (!it.isChunk)).lru.heads q)
          ((s.doItemLinkQ it (!it.isChunk)).lru.tails q) (queue q) := by
        simpa [Store.doItemLinkQ, ite_update, e] using h.dll q
      have hfr : ∀ x ∈ queue q, x ≠ it ∧ x ∉ queue (s.heap.slabsClsid it) := fun x hx =>
        ⟨ne_of_mem_of_not_mem hx (hnew q), fun hx' => e (h.disjoint _ _ x hx hx')⟩
      exact hd.congr (fun x hx => (h.linkQ_frame _ (hfr x hx).1 (hfr x hx).2).1)
        (fun x hx => (h.linkQ_frame _ (hfr x hx).1 (hfr x hx).2).2)
  disjoint q q' x hx hx' := by
    rw [mem_update_append] at hx hx'
    rcases hx with hx | ⟨hq, hx⟩ <;> rcases hx' with hx' | ⟨hq', hx'⟩
    · exact h.disjoint _ _ x hx hx'
    · exact absurd hx (hx' ▸ hnew _)
    · exact absurd hx' (hx ▸ hnew _)
    · rw [hq, hq']
  size q := by
    by_cases e : q = s.heap.slabsClsid it
    · subst e
      rw [Function.update_self, List.countP_append, List.countP_singleton]
      cases hc : it.isChunk
      · simpa [Store.doItemLinkQ, hc] using h.size _
      · simp [Store.doItemLinkQ, h.size, UInt32.ofNat_add]
    · rw [Function.update_of_ne e, ← h.size q]
      cases it.isChunk <;> simp [Store.doItemLinkQ, e]

/-- Linking where all other queues are empty. -/
theorem linkQ_single {q : ℕ} {l : List Ptr}
    (h : QueuesOk s.heap.next s.heap.prev s.lru (Function.update (fun _ => []) q l))
    (hq : s.heap.slabsClsid it = q) (hnew : it ∉ l) :
    QueuesOk (s.doItemLinkQ it (!it.isChunk)).heap.next (s.doItemLinkQ it (!it.isChunk)).heap.prev
      (s.doItemLinkQ it (!it.isChunk)).lru (Function.update (fun _ => []) q (l ++ [it])) := by
  have hnone : ∀ q', it ∉ Function.update (fun _ => []) q l q' := by
    intro q'
    rw [Function.update_apply]
    split_ifs
    · exact hnew
    · exact List.not_mem_nil
  have hlink := linkQ h hnone
  rwa [hq, Function.update_self, Function.update_idem] at hlink

/-- The nodes whose links a `DoItemUnlinkQ` leaves alone. -/
theorem unlinkQ_frame (h : QueuesOk s.heap.next s.heap.prev s.lru queue)
    (hit : it ∈ queue (s.heap.slabsClsid it)) (cr : Bool) {y : Ptr}
    (hy : y ∉ queue (s.heap.slabsClsid it)) :
    (s.doItemUnlinkQ it cr).heap.next y = s.heap.next y ∧
      (s.doItemUnlinkQ it cr).heap.prev y = s.heap.prev y := by
  have hn : s.heap.next it ≠ some y := fun e => hy ((h.dll _).next_mem hit e)
  have hp : s.heap.prev it ≠ some y := fun e => hy ((h.dll _).prev_mem hit e)
  simp only [Store.doItemUnlinkQ]
  rw [setAt_of_ne ((h.dll _).next_ne_self hit)]
  exact remove_frame hp hn

/-- **Unlinking erases** the node from the queue of its `slabs_clsid`. -/
theorem unlinkQ (h : QueuesOk s.heap.next s.heap.prev s.lru queue)
    (hit : it ∈ queue (s.heap.slabsClsid it)) :
    QueuesOk (s.doItemUnlinkQ it (!it.isChunk)).heap.next
      (s.doItemUnlinkQ it (!it.isChunk)).heap.prev (s.doItemUnlinkQ it (!it.isChunk)).lru
      (Function.update queue (s.heap.slabsClsid it)
        ((queue (s.heap.slabsClsid it)).erase it)) where
  dll q := by
    by_cases e : q = s.heap.slabsClsid it
    · subst e
      have hd := h.dll (s.heap.slabsClsid it)
      obtain ⟨a, b, -, hab, he⟩ := List.exists_erase_eq hit
      have hs := hd.next_ne_self hit
      rw [hab] at hd
      rw [Function.update_self, he]
      simpa [Store.doItemUnlinkQ, ite_update, setAt_of_ne hs] using hd.remove
    · rw [Function.update_of_ne e]
      have hd : IsDll s.heap.next s.heap.prev ((s.doItemUnlinkQ it (!it.isChunk)).lru.heads q)
          ((s.doItemUnlinkQ it (!it.isChunk)).lru.tails q) (queue q) := by
        simpa [Store.doItemUnlinkQ, ite_update, e] using h.dll q
      have hfr : ∀ x ∈ queue q, x ∉ queue (s.heap.slabsClsid it) := fun x hx hx' =>
        e (h.disjoint _ _ x hx hx')
      exact hd.congr (fun x hx => (h.unlinkQ_frame hit _ (hfr x hx)).1)
        (fun x hx => (h.unlinkQ_frame hit _ (hfr x hx)).2)
  disjoint q q' x hx hx' := by
    rw [mem_update_erase _ _ _ _ _ (h.dll _).nodup] at hx hx'
    exact h.disjoint _ _ x hx.1 hx'.1
  size q := by
    by_cases e : q = s.heap.slabsClsid it
    · subst e
      rw [Function.update_self, List.countP_erase]
      cases hc : it.isChunk
      · simpa [Store.doItemUnlinkQ, hc] using h.size _
      · have hpos : 1 ≤ (queue (s.heap.slabsClsid it)).countP Ptr.isChunk :=
          List.countP_pos_iff.mpr ⟨it, hit, hc⟩
        simp [Store.doItemUnlinkQ, h.size, hit, UInt32.ofNat_sub hpos]
    · rw [Function.update_of_ne e, ← h.size q]
      cases it.isChunk <;> simp [Store.doItemUnlinkQ, e]

/-- **One crawl step**: the crawler and the node `y` before it change places. -/
theorem crawl (h : QueuesOk s.heap.next s.heap.prev s.lru queue) {a b : List Ptr} {y : Ptr}
    (hq : queue (s.heap.slabsClsid it) = a ++ y :: it :: b) :
    (s.crawlerCrawlQ it).1 = some y ∧
      QueuesOk (s.crawlerCrawlQ it).2.heap.next (s.crawlerCrawlQ it).2.heap.prev
        (s.crawlerCrawlQ it).2.lru
        (Function.update queue (s.heap.slabsClsid it) (a ++ it :: y :: b)) := by
  have hd := h.dll (s.heap.slabsClsid it)
  rw [hq] at hd
  have hp : s.heap.prev it = some y := by
    have := (List.append_cons a y (it :: b) ▸ hd).mid.1
    simpa using this
  have hperm : (a ++ it :: y :: b).Perm (queue (s.heap.slabsClsid it)) :=
    hq ▸ (List.Perm.swap y it b).append_left a
  have hmem : ∀ q x, x ∈ Function.update queue (s.heap.slabsClsid it) (a ++ it :: y :: b) q ↔
      x ∈ queue q := by
    intro q x
    by_cases e : q = s.heap.slabsClsid it
    · subst e; rw [Function.update_self, hperm.mem_iff]
    · rw [Function.update_of_ne e]
  have hsw := hd.swap rfl rfl rfl rfl rfl rfl
  refine ⟨?_, fun q => ?_, ?_, ?_⟩
  · simpa [Store.crawlerCrawlQ, hp] using hsw.mid.2
  · by_cases e : q = s.heap.slabsClsid it
    · subst e
      rw [Function.update_self]
      simpa [Store.crawlerCrawlQ, hp, ite_update] using hsw
    · rw [Function.update_of_ne e]
      have hfr : ∀ x ∈ queue q, x ∉ a ++ y :: it :: b := fun x hx hx' =>
        e (h.disjoint _ _ x hx (hq ▸ hx'))
      have hd' : IsDll s.heap.next s.heap.prev ((s.crawlerCrawlQ it).2.lru.heads q)
          ((s.crawlerCrawlQ it).2.lru.tails q) (queue q) := by
        simpa [Store.crawlerCrawlQ, hp, ite_update, e] using h.dll q
      refine hd'.congr (fun x hx => ?_) (fun x hx => ?_)
      · have := (hd.swap_frame rfl rfl rfl rfl rfl rfl (hfr x hx)).1
        simpa [Store.crawlerCrawlQ, hp] using this
      · have := (hd.swap_frame rfl rfl rfl rfl rfl rfl (hfr x hx)).2
        simpa [Store.crawlerCrawlQ, hp] using this
  · intro q q' x hx hx'
    rw [hmem] at hx hx'
    exact h.disjoint _ _ x hx hx'
  · intro q
    have hs : (s.crawlerCrawlQ it).2.lru.itemSizes = s.lru.itemSizes := by
      simp [Store.crawlerCrawlQ, hp]
    rw [hs, h.size]
    by_cases e : q = s.heap.slabsClsid it
    · subst e; rw [Function.update_self, hperm.countP_eq]
    · rw [Function.update_of_ne e]

/-- **At the head** the crawler returns no item; with nodes behind it, it leaves the list. -/
theorem crawl_head (h : QueuesOk s.heap.next s.heap.prev s.lru queue) {b : List Ptr}
    (hq : queue (s.heap.slabsClsid it) = it :: b) (hit : it.isChunk = false) :
    (s.crawlerCrawlQ it).1 = none ∧
      QueuesOk (s.crawlerCrawlQ it).2.heap.next (s.crawlerCrawlQ it).2.heap.prev
        (s.crawlerCrawlQ it).2.lru
        (Function.update queue (s.heap.slabsClsid it) (if b = [] then [it] else b)) ∧
      (s.crawlerCrawlQ it).2.heap.prev it = none ∧
      (s.crawlerCrawlQ it).2.heap.next it = b.head? := by
  have hd := h.dll (s.heap.slabsClsid it)
  rw [hq] at hd
  obtain ⟨hp, hn⟩ := (List.nil_append (it :: b) ▸ hd : IsDll _ _ _ _ ([] ++ it :: b)).mid
  cases b with
  | nil =>
    have e : s.crawlerCrawlQ it = (none, s) := by simp [Store.crawlerCrawlQ, hp, hn]
    rw [e, if_pos rfl, ← hq, Function.update_eq_self]
    exact ⟨rfl, h, hp, hn⟩
  | cons z b =>
    have hn' : s.heap.next it = some z := hn
    have hp' : s.heap.prev it = none := hp
    have hpop := hd.seg.popFront hd.nodup
    rw [hn'] at hpop
    have hnd := hd.nodup
    have hzit : z ≠ it := by rintro rfl; simp at hnd
    simp only [Store.crawlerCrawlQ, hp', hn', reduceCtorEq, if_false]
    refine ⟨trivial, ⟨fun q => ?_, fun q q' x hx hx' => ?_, fun q => ?_⟩, ?_, rfl⟩
    · by_cases e : q = s.heap.slabsClsid it
      · subst e
        rw [Function.update_self]
        refine ⟨(List.nodup_cons.mp hnd).2, Function.update_self _ _ _, ?_, hpop⟩
        rw [hd.tail_eq]
        simp [List.getLast?_cons]
      · rw [Function.update_of_ne e]
        have hd' : IsDll s.heap.next s.heap.prev
            (Function.update s.lru.heads (s.heap.slabsClsid it) (some z) q) (s.lru.tails q)
            (queue q) := by
          rw [Function.update_of_ne e]; exact h.dll q
        refine hd'.congr (fun _ _ => rfl) (fun x hx => ?_)
        refine Function.update_of_ne (fun e' => ?_) _ _
        subst e'
        exact e (h.disjoint _ _ x hx (by rw [hq]; simp))
    · have hsub : ∀ q x, x ∈ Function.update queue (s.heap.slabsClsid it) (z :: b) q →
          x ∈ queue q := by
        intro q x hx
        by_cases e : q = s.heap.slabsClsid it
        · subst e
          rw [Function.update_self] at hx
          rw [hq]
          exact List.mem_cons_of_mem _ hx
        · rwa [Function.update_of_ne e] at hx
      exact h.disjoint _ _ x (hsub _ _ hx) (hsub _ _ hx')
    · rw [h.size]
      by_cases e : q = s.heap.slabsClsid it
      · subst e; rw [Function.update_self, hq, List.countP_cons, hit]; simp
      · rw [Function.update_of_ne e]
    · rw [Function.update_of_ne hzit.symm, hp']

/-- The nodes whose links a `CrawlerCrawlQ` leaves alone. -/
theorem crawl_frame (h : QueuesOk s.heap.next s.heap.prev s.lru queue)
    (hit : it ∈ queue (s.heap.slabsClsid it)) {w : Ptr} (hw : w ∉ queue (s.heap.slabsClsid it)) :
    (s.crawlerCrawlQ it).2.heap.next w = s.heap.next w ∧
      (s.crawlerCrawlQ it).2.heap.prev w = s.heap.prev w := by
  have hd := h.dll (s.heap.slabsClsid it)
  cases hp : s.heap.prev it with
  | none =>
    cases hn : s.heap.next it with
    | none => simp [Store.crawlerCrawlQ, hp, hn]
    | some z =>
      have hwz : w ≠ z := fun e => hw (e ▸ hd.next_mem hit hn)
      simp [Store.crawlerCrawlQ, hp, hn, hwz]
  | some y =>
    obtain ⟨a, b, hab⟩ := List.append_of_mem hit
    have ha : a.getLast? = some y := by
      rw [hab] at hd
      exact hd.mid.1.symm.trans hp
    obtain ⟨a, rfl⟩ := List.getLast?_eq_some_iff.mp ha
    rw [List.append_assoc] at hab
    rw [hab] at hd hw
    have := hd.swap_frame rfl rfl rfl rfl rfl rfl hw
    simpa [Store.crawlerCrawlQ, hp] using this

/-- **The unlink that ends a crawl** after the crawler stepped out: nothing changes. -/
theorem unlinkQ_popped (h : QueuesOk s.heap.next s.heap.prev s.lru queue)
    (hit : it ∉ queue (s.heap.slabsClsid it)) (hp : s.heap.prev it = none)
    (hn : s.heap.next it = (queue (s.heap.slabsClsid it)).head?) :
    (s.doItemUnlinkQ it true).heap.next = s.heap.next ∧
      (s.doItemUnlinkQ it true).heap.prev = s.heap.prev ∧
      (s.doItemUnlinkQ it true).lru = s.lru := by
  have hd := h.dll (s.heap.slabsClsid it)
  have hhead : s.lru.heads (s.heap.slabsClsid it) ≠ some it := by
    rw [hd.head_eq]; exact head?_ne_of_not_mem hit
  have htail : s.lru.tails (s.heap.slabsClsid it) ≠ some it := by
    rw [hd.tail_eq]; exact fun e => hit (List.mem_of_getLast? e)
  have hprev : setAt s.heap.prev (s.heap.next it) none = s.heap.prev := by
    rw [hn, ← hd.head_eq]
    cases e : s.lru.heads (s.heap.slabsClsid it) with
    | none => rfl
    | some z => exact Function.update_eq_self_iff.mpr (hd.prev_head e).symm
  simp [Store.doItemUnlinkQ, hhead, htail, hp, hprev]

end QueuesOk

end Mdb
