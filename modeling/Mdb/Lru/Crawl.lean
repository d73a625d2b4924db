import Mdb.Lru.Runs

/-!
# One crawl of a queue

A crawler node has just been linked at the tail of a queue. `CrawlerCrawlQ` moves it towards the head,
one item at a call, while items are linked at the tail and unlinked anywhere.

* `QueueCrawl`, `QueueCrawl.Init`, `QueueCrawlStep`: the calls, what they have returned, and the items
  that were unlinked before the crawler came to them;
* `QueueCrawlInv`: the items in front of the crawler and those returned are together the items at the
  start, without those lost; `QueueCrawlInv.crawl`, `QueueCrawlInv.link`, `QueueCrawlInv.unlink`: every
  step keeps it;
* **`crawl_visits_once`**: every item is returned once, from tail to head, and the crawl ends.
-/

namespace Mdb

open Dll Run

/-! ## Runs -/

/-- The store, what `CrawlerCrawlQ` has returned and how often it was called, the items that were
unlinked before it had returned them, and whether it has returned `NULL`. -/
structure QueueCrawl where
  store : Store
  returned : List Ptr
  calls : ℕ
  lost : List Ptr
  ended : Bool

/-- The crawler of queue `id` has just been linked behind the nodes `start`. -/
def QueueCrawl.Init (id : ℕ) (start : List Ptr) (r : QueueCrawl) : Prop :=
  ∃ (s : Store) (queue : ℕ → List Ptr), s.Queues queue ∧ queue id = start ∧
    (∀ q, Ptr.crawler id ∉ queue q) ∧ s.heap.slabsClsid (.crawler id) = id ∧
    r = ⟨s.doItemLinkQ (.crawler id) true, [], 0, [], false⟩

/-- A call of `CrawlerCrawlQ`. -/
def QueueCrawl.crawl (id : ℕ) (r : QueueCrawl) : QueueCrawl :=
  let p := r.store.crawlerCrawlQ (.crawler id)
  { r with
    store := p.2
    returned := r.returned ++ p.1.toList
    calls := r.calls + 1
    ended := p.1.isNone }

/-- One call, before the crawl has ended: of the crawler, of `DoItemLinkQ` for an item in no queue, of
`DoItemUnlinkQ` for an item of this queue or another one, or anything that leaves the queues alone. -/
inductive QueueCrawlStep (id : ℕ) : QueueCrawl → QueueCrawl → Prop where
  | crawl (r : QueueCrawl) (hgo : r.ended = false) : QueueCrawlStep id r (r.crawl id)
  | link (r : QueueCrawl) (a : ℕ) (hgo : r.ended = false)
      (hnew : ∀ queue q, r.store.Queues queue → .chunk a ∉ queue q) :
      QueueCrawlStep id r { r with store := r.store.doItemLinkQ (.chunk a) false }
  | unlink (r : QueueCrawl) (a : ℕ) (hgo : r.ended = false)
      (hin : ∀ queue, r.store.Queues queue → .chunk a ∈ queue (r.store.heap.slabsClsid (.chunk a))) :
      QueueCrawlStep id r { r with
        store := r.store.doItemUnlinkQ (.chunk a) false
        lost := if .chunk a ∈ r.returned then r.lost else .chunk a :: r.lost }
  | other (r : QueueCrawl) (s : Store) (hgo : r.ended = false) (hlru : s.lru = r.store.lru)
      (hlinks : ∀ queue q x, r.store.Queues queue → x ∈ queue q →
        s.heap.next x = r.store.heap.next x ∧ s.heap.prev x = r.store.heap.prev x)
      (hcls : s.heap.slabsClsid (.crawler id) = r.store.heap.slabsClsid (.crawler id)) :
      QueueCrawlStep id r { r with store := s }

/-! ## The invariant -/

/-- **The invariant of a crawl.** `front` are the nodes in front of the crawler. -/
structure QueueCrawlInv (id : ℕ) (start : List Ptr) (r : QueueCrawl) (queue : ℕ → List Ptr)
    (front : List Ptr) : Prop where
  queues : r.store.Queues queue
  clsid : r.store.heap.slabsClsid (.crawler id) = id
  nodup : start.Nodup
  going : r.ended = false → ∃ behind, queue id = front ++ .crawler id :: behind
  done : r.ended = true → front = []
  visited : start.filter (fun x => x ∉ r.lost) = front ++ r.returned.reverse
  calls : r.calls = r.returned.length + r.ended.toNat

theorem crawlerCrawlQ_clsid (s : Store) (it : Ptr) :
    (s.crawlerCrawlQ it).2.heap.slabsClsid = s.heap.slabsClsid := by
  unfold Store.crawlerCrawlQ
  split <;> [split; skip] <;> rfl

theorem filter_not_mem_cons {α : Type} [DecidableEq α] {l : List α} (hl : l.Nodup) (x : α)
    (lost : List α) : l.filter (fun y => y ∉ x :: lost) = (l.filter fun y => y ∉ lost).erase x := by
  rw [(hl.filter _).erase_eq_filter, List.filter_filter]
  refine List.filter_congr fun y _ => ?_
  by_cases e : y = x <;> simp [e]

namespace QueueCrawlInv

variable {id : ℕ} {start : List Ptr} {r : QueueCrawl} {queue : ℕ → List Ptr} {front : List Ptr}

theorem init (h : r.Init id start) : ∃ queue front, QueueCrawlInv id start r queue front := by
  obtain ⟨s, queue, hq, rfl, hnew, hcls, rfl⟩ := h
  refine ⟨_, queue id, hq.linkQ hnew, hcls, (hq.dll id).nodup, fun _ => ⟨[], ?_⟩, fun h => (by cases h),
    by simp, rfl⟩
  rw [hcls, Function.update_self]

/-- What was returned or is still in front of the crawler, once each. -/
theorem nodup_visited (h : QueueCrawlInv id start r queue front) :
    (front ++ r.returned.reverse).Nodup := h.visited ▸ h.nodup.filter _

/-- **A call of the crawler** returns the node in front of it, or none at the head; the order of the
other nodes stays as it is. -/
theorem crawl (h : QueueCrawlInv id start r queue front) (hgo : r.ended = false) :
    ∃ queue' front', QueueCrawlInv id start (r.crawl id) queue' front' ∧
      ∀ q, (queue' q).filter (fun x => x ≠ .crawler id) = (queue q).filter fun x => x ≠ .crawler id := by
  obtain ⟨behind, hqid⟩ := h.going hgo
  have hcls : (r.crawl id).store.heap.slabsClsid (.crawler id) = id := by
    rw [QueueCrawl.crawl, crawlerCrawlQ_clsid, h.clsid]
  have hcalls := h.calls
  rw [hgo, Bool.toNat_false] at hcalls
  have hkeep : ∀ l : List Ptr, l.filter (fun x => x ≠ .crawler id) =
      (queue id).filter (fun x => x ≠ .crawler id) → ∀ q,
      (Function.update queue id l q).filter (fun x => x ≠ .crawler id) =
        (queue q).filter fun x => x ≠ .crawler id := by
    intro l hl q
    by_cases e : q = id
    · rw [e, Function.update_self, hl]
    · rw [Function.update_of_ne e]
  cases front using List.reverseRecOn with
  | nil =>
    obtain ⟨hret, hok, -, -⟩ := h.queues.crawl_head (by rw [h.clsid]; exact hqid) rfl
    rw [h.clsid] at hok
    have hr : r.crawl id = { r with
        store := (r.store.crawlerCrawlQ (.crawler id)).2, calls := r.calls + 1, ended := true } := by
      rw [QueueCrawl.crawl, hret]
      simp
    refine ⟨_, [], ⟨hok, hcls, h.nodup, fun he => ?_, fun _ => rfl, ?_, ?_⟩, hkeep _ ?_⟩
    · rw [hr] at he
      cases he
    · rw [hr]
      exact h.visited
    · rw [hr, hcalls]
      rfl
    · rw [hqid]
      split_ifs with hb
      · rw [hb]
        rfl
      · simp
  | append_singleton front y _ =>
    rw [List.append_assoc] at hqid
    obtain ⟨hret, hok⟩ := h.queues.crawl (by rw [h.clsid]; exact hqid)
    rw [h.clsid] at hok
    have hr : r.crawl id = { r with
        store := (r.store.crawlerCrawlQ (.crawler id)).2, returned := r.returned ++ [y],
        calls := r.calls + 1, ended := false } := by
      rw [QueueCrawl.crawl, hret]
      rfl
    refine ⟨_, front, ⟨hok, hcls, h.nodup, fun _ => ⟨y :: behind, Function.update_self _ _ _⟩,
      fun he => ?_, ?_, ?_⟩, hkeep _ ?_⟩
    · rw [hr] at he
      cases he
    · rw [hr]
      show start.filter (fun x => x ∉ r.lost) = front ++ (r.returned ++ [y]).reverse
      rw [h.visited, List.reverse_append]
      simp
    · rw [hr, hcalls]
      simp
    · rw [hqid]
      simp [List.filter_cons]

/-- **Linking** an item puts it behind the crawler. -/
theorem link (h : QueueCrawlInv id start r queue front) (hgo : r.ended = false) {a : ℕ}
    (hnew : ∀ q, .chunk a ∉ queue q) : ∃ queue',
      QueueCrawlInv id start { r with store := r.store.doItemLinkQ (.chunk a) false } queue' front := by
  obtain ⟨behind, hqid⟩ := h.going hgo
  refine ⟨_, h.queues.linkQ hnew, h.clsid, h.nodup, fun _ => ?_, h.done, h.visited, h.calls⟩
  by_cases e : id = r.store.heap.slabsClsid (.chunk a)
  · refine ⟨behind ++ [.chunk a], ?_⟩
    rw [← e, Function.update_self, hqid]
    simp
  · exact ⟨behind, by rw [Function.update_of_ne e, hqid]⟩

/-- **Unlinking** an item in front of the crawler loses it. -/
theorem unlink (h : QueueCrawlInv id start r queue front) (hgo : r.ended = false) {a : ℕ}
    (hin : .chunk a ∈ queue (r.store.heap.slabsClsid (.chunk a))) :
    ∃ queue' front', QueueCrawlInv id start { r with
        store := r.store.doItemUnlinkQ (.chunk a) false
        lost := if .chunk a ∈ r.returned then r.lost else .chunk a :: r.lost } queue' front' := by
  obtain ⟨behind, hqid⟩ := h.going hgo
  refine ⟨_, front.erase (.chunk a), h.queues.unlinkQ hin, h.clsid, h.nodup, fun _ => ?_,
    fun he => by rw [h.done he]; rfl, ?_, h.calls⟩
  · by_cases e : id = r.store.heap.slabsClsid (.chunk a)
    · rw [← e, Function.update_self, hqid]
      by_cases hf : .chunk a ∈ front
      · exact ⟨behind, List.erase_append_left _ hf⟩
      · refine ⟨behind.erase (.chunk a), ?_⟩
        rw [List.erase_append_right _ hf, List.erase_of_not_mem hf, List.erase_cons_tail (by simp)]
    · -- an item of another queue is not in front of the crawler
      refine ⟨behind, ?_⟩
      have hf : .chunk a ∉ front := fun hf =>
        e (h.queues.disjoint _ _ (.chunk a) (by rw [hqid]; exact List.mem_append_left _ hf) hin)
      rw [Function.update_of_ne e, hqid, List.erase_of_not_mem hf]
  · show start.filter (fun x => x ∉ if .chunk a ∈ r.returned then r.lost else .chunk a :: r.lost) =
      front.erase (.chunk a) ++ r.returned.reverse
    by_cases hr : .chunk a ∈ r.returned
    · have hf : .chunk a ∉ front := fun hf =>
        List.disjoint_of_nodup_append h.nodup_visited hf (List.mem_reverse.mpr hr)
      rw [if_pos hr, h.visited, List.erase_of_not_mem hf]
    · rw [if_neg hr, filter_not_mem_cons h.nodup, h.visited]
      by_cases hf : .chunk a ∈ front
      · exact List.erase_append_left _ hf
      · rw [List.erase_append_right _ hf, List.erase_of_not_mem hf,
          List.erase_of_not_mem (by simpa using hr)]

/-- **Every step.** -/
theorem step {r' : QueueCrawl} (h : QueueCrawlInv id start r queue front) (hs : QueueCrawlStep id r r') :
    ∃ queue' front', QueueCrawlInv id start r' queue' front' := by
  cases hs with
  | crawl hgo =>
    obtain ⟨queue', front', h', -⟩ := h.crawl hgo
    exact ⟨queue', front', h'⟩
  | link a hgo hnew =>
    obtain ⟨queue', h'⟩ := h.link hgo fun q => hnew queue q h.queues
    exact ⟨queue', front, h'⟩
  | unlink a hgo hin => exact h.unlink hgo (hin queue h.queues)
  | other s hgo hlru hlinks hcls =>
    refine ⟨queue, front, ?_, hcls.trans h.clsid, h.nodup, h.going, h.done, h.visited, h.calls⟩
    show QueuesOk s.heap.next s.heap.prev s.lru queue
    rw [hlru]
    exact h.queues.congr fun q x hx => hlinks queue q x h.queues hx

theorem reach (h : Reach (QueueCrawl.Init id start) (QueueCrawlStep id) r) :
    ∃ queue front, QueueCrawlInv id start r queue front :=
  h.invariant (I := fun r => ∃ queue front, QueueCrawlInv id start r queue front) (fun _ => init)
    fun _ _ ⟨_, _, hq⟩ hs => hq.step hs

end QueueCrawlInv

/-- **A crawl visits each item once and ends.** However the calls of the crawler are interleaved with
links and unlinks, what it has returned are nodes of the queue at the start, in order from tail to head,
each at most once, and none that was unlinked before; when it returns `NULL` it has returned all the
others; it does so after at most one call more than there were nodes; and it never changes the order of
the other nodes. -/
theorem crawl_visits_once {id : ℕ} {start : List Ptr} {r : QueueCrawl}
    (h : Reach (QueueCrawl.Init id start) (QueueCrawlStep id) r) :
    r.returned.Nodup ∧ r.returned.Sublist start.reverse ∧ (∀ x ∈ r.returned, x ∉ r.lost) ∧
    (r.ended = true → r.returned = (start.filter fun x => x ∉ r.lost).reverse) ∧
    r.calls ≤ start.length + 1 ∧ (r.calls = start.length + 1 → r.ended = true) ∧
    (r.ended = false → ∀ queue, r.store.Queues queue → ∃ queue', (r.crawl id).store.Queues queue' ∧
      ∀ q, (queue' q).filter (fun x => x ≠ .crawler id) =
        (queue q).filter fun x => x ≠ .crawler id) := by
  obtain ⟨queue, front, hi⟩ := QueueCrawlInv.reach h
  have hlen : front.length + r.returned.length ≤ start.length := by
    have := List.length_filter_le (fun x => decide (x ∉ r.lost)) start
    rw [hi.visited, List.length_append, List.length_reverse] at this
    exact this
  have hsub : (start.filter fun x => x ∉ r.lost).reverse = r.returned ++ front.reverse := by
    rw [hi.visited]
    simp
  have hcalls := hi.calls
  refine ⟨?_, ?_, fun x hx => ?_, fun he => ?_, ?_, fun hc => ?_, fun hgo queue' hq => ?_⟩
  · exact List.nodup_reverse.mp (List.nodup_append.mp hi.nodup_visited).2.1
  · exact (hsub ▸ List.sublist_append_left _ _).trans List.filter_sublist.reverse
  · have hm : x ∈ start.filter fun x => x ∉ r.lost := by
      rw [hi.visited]
      exact List.mem_append_right _ (List.mem_reverse.mpr hx)
    simpa using (List.mem_filter.mp hm).2
  · rw [hsub, hi.done he]
    simp
  · have := Bool.toNat_le r.ended
    omega
  · cases he : r.ended with
    | true => rfl
    | false =>
      rw [he, Bool.toNat_false] at hcalls
      omega
  · obtain ⟨queue₂, front₂, h₂, horder⟩ := hi.crawl hgo
    rw [hi.queues.unique hq]
    exact ⟨queue₂, h₂.queues, horder⟩

/-- Two items, of which the one at the head is unlinked before the crawler moves. -/
theorem crawl_visits_once_lost : ∃ r : QueueCrawl,
    Reach (QueueCrawl.Init 0 [.chunk 8, .chunk 16]) (QueueCrawlStep 0) r ∧ r.returned = [.chunk 16] ∧
    r.lost = [.chunk 8] ∧ r.ended = true ∧ r.calls ≤ 3 := by
  let s : Store := Store.initial 32 (fun _ => 0) (.initial 0) .failing
  have e : s.Queues fun _ => [] := .empty (fun _ => rfl) (fun _ => rfl) (fun _ => rfl)
  have e8 : (s.doItemLinkQ (.chunk 8) false).Queues (Function.update (fun _ => []) 0 [.chunk 8]) :=
    e.linkQ (by simp)
  have e16 := QueuesOk.linkQ_single e8 (show _ = 0 from rfl) (show Ptr.chunk 16 ∉ _ by simp)
  have hnew : ∀ q, Ptr.crawler 0 ∉ Function.update (fun _ => []) 0 [Ptr.chunk 8, .chunk 16] q :=
    fun q => by by_cases h : q = 0 <;> simp [h]
  have hc := QueuesOk.linkQ e16 hnew
  have h0 : Reach (QueueCrawl.Init 0 [.chunk 8, .chunk 16]) (QueueCrawlStep 0) _ :=
    .start ⟨_, _, e16, rfl, hnew, rfl, rfl⟩
  have h1 := h0.next (.unlink _ 8 rfl fun queue hq => by
    rw [hc.unique hq]
    exact List.mem_cons_self)
  have h2 := (h1.next (.crawl _ rfl)).next (.crawl _ rfl)
  exact ⟨_, h2, rfl, rfl, rfl, (crawl_visits_once h2).2.2.2.2.1⟩

end Mdb
