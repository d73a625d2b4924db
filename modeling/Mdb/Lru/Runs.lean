import Mdb.Lib.Run
import Mdb.Lru.Queue

/-!
# Runs of the LRU queues

Items are linked and unlinked, crawler nodes are linked, crawl and are unlinked, in any order and
over all 256 queues.

* `QueueRun`: the store with the queue every node was last linked to;
* `QueueStep`: one call; what the rest of the program does in between is `QueueStep.other`;
* `QueueInv`: the invariant, `QueueInv.step`: every step keeps it;
* `queues_wellFormed`: in every state reached all queues are well-formed lists with exact sizes.
-/

namespace Mdb

open Dll Run

/-- The store, the queue each node was linked to and not unlinked from since, and the queues whose
crawler has stepped out at the head: the thread still holds the queue's lock and unlinks next. -/
structure QueueRun where
  store : Store
  linkedIn : Ptr → Option ℕ
  popped : ℕ → Bool

/-- One call on the queues, under the conditions its callers meet. -/
inductive QueueStep : QueueRun → QueueRun → Prop where
  | link (r : QueueRun) (a : ℕ) (hnew : r.linkedIn (.chunk a) = none)
      (hid : r.store.heap.slabsClsid (.chunk a) < largestId)
      (hlock : r.popped (r.store.heap.slabsClsid (.chunk a)) = false) :
      QueueStep r { r with
        store := r.store.doItemLinkQ (.chunk a) false
        linkedIn := Function.update r.linkedIn (.chunk a)
          (some (r.store.heap.slabsClsid (.chunk a))) }
  | unlink (r : QueueRun) (a : ℕ)
      (hin : r.linkedIn (.chunk a) = some (r.store.heap.slabsClsid (.chunk a)))
      (hlock : r.popped (r.store.heap.slabsClsid (.chunk a)) = false) :
      QueueStep r { r with
        store := r.store.doItemUnlinkQ (.chunk a) false
        linkedIn := Function.update r.linkedIn (.chunk a) none }
  | crawlerLink (r : QueueRun) (id : ℕ) (hid : id < largestId)
      (hnew : r.linkedIn (.crawler id) = none)
      (hcls : r.store.heap.slabsClsid (.crawler id) = id) :
      QueueStep r { r with
        store := r.store.doItemLinkQ (.crawler id) true
        linkedIn := Function.update r.linkedIn (.crawler id) (some id) }
  | crawl (r : QueueRun) (id : ℕ) (hin : r.linkedIn (.crawler id) = some id)
      (hlock : r.popped id = false) :
      QueueStep r { r with
        store := (r.store.crawlerCrawlQ (.crawler id)).2
        popped := Function.update r.popped id (r.store.crawlerCrawlQ (.crawler id)).1.isNone }
  | crawlerUnlink (r : QueueRun) (id : ℕ) (hin : r.linkedIn (.crawler id) = some id) :
      QueueStep r
        { store := r.store.doItemUnlinkQ (.crawler id) true
          linkedIn := Function.update r.linkedIn (.crawler id) none
          popped := Function.update r.popped id false }
  /-- Anything else: it leaves the queue heads, the links of queued nodes and the class of a queued
  crawler alone. -/
  | other (r : QueueRun) (s : Store) (hlru : s.lru = r.store.lru)
      (hlinks : ∀ x, r.linkedIn x ≠ none →
        s.heap.next x = r.store.heap.next x ∧ s.heap.prev x = r.store.heap.prev x)
      (hcls : ∀ id, r.linkedIn (.crawler id) ≠ none →
        s.heap.slabsClsid (.crawler id) = r.store.heap.slabsClsid (.crawler id)) :
      QueueStep r { r with store := s }

/-- All queues are empty. -/
def QueueRun.Init (r : QueueRun) : Prop :=
  (∀ q, r.store.lru.heads q = none ∧ r.store.lru.tails q = none ∧ r.store.lru.itemSizes q = 0) ∧
    (∀ x, r.linkedIn x = none) ∧ ∀ q, r.popped q = false

/-- **The invariant**: the queues represent the lists `queue`, whose nodes are those linked; a crawler
that has stepped out is alone in its queue or in front of it. -/
structure QueueInv (s : Store) (linkedIn : Ptr → Option ℕ) (popped : ℕ → Bool)
    (queue : ℕ → List Ptr) : Prop where
  ok : QueuesOk s.heap.next s.heap.prev s.lru queue
  mem : ∀ x q, x ∈ queue q → linkedIn x = some q
  linked : ∀ x q, linkedIn x = some q → x ∈ queue q ∨ x = .crawler q ∧ popped q = true
  crawler : ∀ id q, linkedIn (.crawler id) = some q →
    q = id ∧ s.heap.slabsClsid (.crawler id) = id
  popped : ∀ id, popped id = true → linkedIn (.crawler id) = some id ∧
    (queue id = [.crawler id] ∨ .crawler id ∉ queue id ∧
      s.heap.prev (.crawler id) = none ∧
      s.heap.next (.crawler id) = (queue id).head?)

namespace QueueInv

variable {s : Store} {linkedIn : Ptr → Option ℕ} {popped : ℕ → Bool} {queue : ℕ → List Ptr}

theorem init {r : QueueRun} (h : r.Init) :
    QueueInv r.store r.linkedIn r.popped fun _ => [] where
  ok := .empty (fun q => (h.1 q).1) (fun q => (h.1 q).2.1) (fun q => (h.1 q).2.2)
  mem x q hx := by cases hx
  linked x q hx := by rw [h.2.1] at hx; cases hx
  crawler id q hx := by rw [h.2.1] at hx; cases hx
  popped id hp := by rw [h.2.2] at hp; cases hp

/-- A chunk is in the queue it was linked to. -/
theorem chunk_mem (h : QueueInv s linkedIn popped queue) {a q : ℕ} (ha : linkedIn (.chunk a) = some q) :
    .chunk a ∈ queue q := by
  rcases h.linked _ _ ha with hm | ⟨e, -⟩
  · exact hm
  · cases e

/-- A node that was linked nowhere is in no queue. -/
theorem not_mem (h : QueueInv s linkedIn popped queue) {x : Ptr} (hx : linkedIn x = none) (q : ℕ) :
    x ∉ queue q := fun hm => by
  rw [h.mem x q hm] at hx
  cases hx

/-- A crawler that has stepped out of another queue is not in queue `q`. -/
theorem popped_not_mem (h : QueueInv s linkedIn popped queue) {id q : ℕ} (hp : popped id = true)
    (hq : id ≠ q) : Ptr.crawler id ∉ queue q := fun hm => by
  have h1 := h.mem _ _ hm
  rw [(h.popped id hp).1] at h1
  exact hq (Option.some.inj h1)

/-- A step that keeps queue `id`, and the links of the crawler that stepped out of it, keeps the
clause `popped` for `id`. -/
theorem popped_frame (h : QueueInv s linkedIn popped queue) {id : ℕ} (hp : popped id = true) {t : Store}
    {queue' : ℕ → List Ptr} (hq : queue' id = queue id)
    (hlinks : Ptr.crawler id ∉ queue id → t.heap.next (.crawler id) = s.heap.next (.crawler id) ∧
      t.heap.prev (.crawler id) = s.heap.prev (.crawler id)) :
    queue' id = [.crawler id] ∨ .crawler id ∉ queue' id ∧ t.heap.prev (.crawler id) = none ∧
      t.heap.next (.crawler id) = (queue' id).head? := by
  rw [hq]
  rcases (h.popped id hp).2 with hc | ⟨hm, h1, h2⟩
  · exact .inl hc
  · rw [(hlinks hm).1, (hlinks hm).2]
    exact .inr ⟨hm, h1, h2⟩

theorem link (h : QueueInv s linkedIn popped queue) {it : Ptr} (hnew : linkedIn it = none)
    (hlock : popped (s.heap.slabsClsid it) = false)
    (hcls : ∀ id, it = .crawler id → s.heap.slabsClsid it = id) :
    QueueInv (s.doItemLinkQ it (!it.isChunk))
      (Function.update linkedIn it (some (s.heap.slabsClsid it))) popped
      (Function.update queue (s.heap.slabsClsid it)
        (queue (s.heap.slabsClsid it) ++ [it])) where
  ok := h.ok.linkQ (h.not_mem hnew)
  mem x q hx := by
    rw [QueuesOk.mem_update_append] at hx
    rcases hx with hx | ⟨rfl, rfl⟩
    · have hne : x ≠ it := ne_of_mem_of_not_mem hx (h.not_mem hnew q)
      rw [Function.update_of_ne hne]
      exact h.mem x q hx
    · exact Function.update_self _ _ _
  linked x q hx := by
    rw [QueuesOk.mem_update_append]
    by_cases e : x = it
    · subst e
      rw [Function.update_self] at hx
      exact .inl (.inr ⟨(Option.some.inj hx).symm, rfl⟩)
    · rw [Function.update_of_ne e] at hx
      exact (h.linked x q hx).imp_left .inl
  crawler id q hx := by
    by_cases e : Ptr.crawler id = it
    · subst e
      rw [Function.update_self] at hx
      cases hx
      exact ⟨hcls id rfl, hcls id rfl⟩
    · rw [Function.update_of_ne e] at hx
      exact h.crawler id q hx
  popped id hp := by
    have hne : id ≠ s.heap.slabsClsid it := fun e => by
      rw [← e, show popped id = true from hp] at hlock
      cases hlock
    have hit : Ptr.crawler id ≠ it := fun e => by
      rw [← e, (h.popped id hp).1] at hnew
      cases hnew
    refine ⟨?_, h.popped_frame hp (Function.update_of_ne hne _ _) fun _ =>
      h.ok.linkQ_frame _ hit (h.popped_not_mem hp hne)⟩
    rw [Function.update_of_ne hit]
    exact (h.popped id hp).1

theorem unlink (h : QueueInv s linkedIn popped queue) {it : Ptr} (hit : it ∈ queue (s.heap.slabsClsid it))
    (hlock : popped (s.heap.slabsClsid it) = true →
      it = .crawler (s.heap.slabsClsid it)) :
    QueueInv (s.doItemUnlinkQ it (!it.isChunk)) (Function.update linkedIn it none)
      (Function.update popped (s.heap.slabsClsid it) false)
      (Function.update queue (s.heap.slabsClsid it)
        ((queue (s.heap.slabsClsid it)).erase it)) where
  ok := h.ok.unlinkQ hit
  mem x q hx := by
    rw [QueuesOk.mem_update_erase _ _ _ _ _ (h.ok.dll _).nodup] at hx
    have hne : x ≠ it := fun e => by
      subst e
      exact hx.2 (h.ok.disjoint _ _ x hx.1 hit) rfl
    rw [Function.update_of_ne hne]
    exact h.mem x q hx.1
  linked x q hx := by
    have hne : x ≠ it := by
      rintro rfl
      rw [Function.update_self] at hx
      cases hx
    rw [Function.update_of_ne hne] at hx
    rw [QueuesOk.mem_update_erase _ _ _ _ _ (h.ok.dll _).nodup]
    refine (h.linked x q hx).imp (fun hm => ⟨hm, fun _ => hne⟩) fun ⟨e, hp⟩ => ⟨e, ?_⟩
    have hq : q ≠ s.heap.slabsClsid it := by
      rintro rfl
      exact hne (e.trans (hlock hp).symm)
    rw [Function.update_of_ne hq]
    exact hp
  crawler id q hx := by
    by_cases e : Ptr.crawler id = it
    · rw [e, Function.update_self] at hx
      cases hx
    · rw [Function.update_of_ne e] at hx
      exact h.crawler id q hx
  popped id hp := by
    by_cases hne : id = s.heap.slabsClsid it
    · rw [hne, Function.update_self] at hp
      cases hp
    · rw [Function.update_of_ne hne] at hp
      have hid : Ptr.crawler id ≠ it := fun e =>
        h.popped_not_mem hp hne (e ▸ hit)
      refine ⟨?_, h.popped_frame hp (Function.update_of_ne hne _ _) fun _ =>
        h.ok.unlinkQ_frame hit _ (h.popped_not_mem hp hne)⟩
      rw [Function.update_of_ne hid]
      exact (h.popped id hp).1

/-- The queue of a linked crawler that has not stepped out: the crawler is in it. -/
theorem crawler_mem (h : QueueInv s linkedIn popped queue) {id : ℕ}
    (hin : linkedIn (.crawler id) = some id) (hlock : popped id = false) :
    .crawler id ∈ queue id := by
  rcases h.linked _ _ hin with hm | ⟨-, hp⟩
  · exact hm
  · rw [hlock] at hp; cases hp

theorem crawl (h : QueueInv s linkedIn popped queue) {id : ℕ}
    (hin : linkedIn (.crawler id) = some id) (hlock : popped id = false) :
    ∃ queue', QueueInv (s.crawlerCrawlQ (.crawler id)).2 linkedIn
      (Function.update popped id (s.crawlerCrawlQ (.crawler id)).1.isNone) queue' := by
  have hcls : s.heap.slabsClsid (.crawler id) = id := (h.crawler id id hin).2
  have hm : .crawler id ∈ queue (s.heap.slabsClsid (.crawler id)) := by
    rw [hcls]; exact h.crawler_mem hin hlock
  have hcr : (s.crawlerCrawlQ (.crawler id)).2.heap.slabsClsid = s.heap.slabsClsid := by
    unfold Store.crawlerCrawlQ
    split <;> [split; skip] <;> rfl
  -- the other queues' crawlers keep their place
  have hother : ∀ {l : List Ptr} {id'}, popped id' = true → id' ≠ id →
      Function.update queue id l id' = [.crawler id'] ∨
        .crawler id' ∉ Function.update queue id l id' ∧
        (s.crawlerCrawlQ (.crawler id)).2.heap.prev (.crawler id') = none ∧
        (s.crawlerCrawlQ (.crawler id)).2.heap.next (.crawler id') =
          (Function.update queue id l id').head? := fun hp hne =>
    h.popped_frame hp (Function.update_of_ne hne _ _) fun _ =>
      h.ok.crawl_frame hm (by rw [hcls]; exact h.popped_not_mem hp hne)
  obtain ⟨a, b, hab⟩ := List.append_of_mem hm
  cases a using List.reverseRecOn with
  | nil =>
    obtain ⟨hret, hok, hprev, hnext⟩ := h.ok.crawl_head hab rfl
    rw [hcls] at hok hab
    rw [hret]
    refine ⟨_, hok, fun x q hx => ?_, fun x q hx => ?_, fun id' q hx => ?_, fun id' hp => ?_⟩
    · refine h.mem x q ?_
      by_cases e : q = id
      · subst e
        rw [Function.update_self] at hx
        rw [hab]
        split_ifs at hx with hb
        · rw [hb]; exact hx
        · exact List.mem_cons_of_mem _ hx
      · rwa [Function.update_of_ne e] at hx
    · by_cases e : q = id
      · subst e
        rw [Function.update_self, Function.update_self]
        rcases h.linked x q hx with hx | ⟨-, hp⟩
        · rw [hab, List.nil_append, List.mem_cons] at hx
          rcases hx with rfl | hx
          · exact .inr ⟨rfl, rfl⟩
          · rw [if_neg (List.ne_nil_of_mem hx)]
            exact .inl hx
        · rw [hlock] at hp; cases hp
      · rw [Function.update_of_ne e, Function.update_of_ne e]
        exact h.linked x q hx
    · rw [hcr]; exact h.crawler id' q hx
    · by_cases e : id' = id
      · subst e
        refine ⟨hin, ?_⟩
        rw [Function.update_self]
        have hnd := (h.ok.dll id').nodup
        rw [hab, List.nil_append, List.nodup_cons] at hnd
        split_ifs with hb
        · exact .inl rfl
        · exact .inr ⟨hnd.1, hprev, hnext⟩
      · rw [Function.update_of_ne e] at hp
        exact ⟨(h.popped id' hp).1, hother hp e⟩
  | append_singleton a y =>
    rw [List.append_assoc] at hab
    obtain ⟨hret, hok⟩ := h.ok.crawl hab
    rw [hcls] at hok hab
    have hmem : ∀ x q, x ∈ Function.update queue id (a ++ .crawler id :: y :: b) q ↔
        x ∈ queue q := by
      intro x q
      by_cases e : q = id
      · subst e
        rw [Function.update_self, hab]
        exact ((List.Perm.swap y (.crawler q) b).append_left a).mem_iff
      · rw [Function.update_of_ne e]
    rw [hret, Option.isNone_some, ← hlock, Function.update_eq_self]
    refine ⟨_, hok, fun x q hx => h.mem x q ((hmem x q).mp hx), fun x q hx => ?_,
      fun id' q hx => by rw [hcr]; exact h.crawler id' q hx, fun id' hp => ?_⟩
    · rw [hmem]; exact h.linked x q hx
    · have hne : id' ≠ id := by
        rintro rfl
        rw [hlock] at hp; cases hp
      exact ⟨(h.popped id' hp).1, hother hp hne⟩

theorem crawlerUnlink (h : QueueInv s linkedIn popped queue) {id : ℕ}
    (hin : linkedIn (.crawler id) = some id) :
    ∃ queue', QueueInv (s.doItemUnlinkQ (.crawler id) true)
      (Function.update linkedIn (.crawler id) none) (Function.update popped id false) queue' := by
  have hcls : s.heap.slabsClsid (.crawler id) = id := (h.crawler id id hin).2
  by_cases hm : .crawler id ∈ queue id
  · have hm' : .crawler id ∈ queue (s.heap.slabsClsid (.crawler id)) := by rw [hcls]; exact hm
    have := h.unlink hm' (fun _ => by rw [hcls])
    rw [hcls] at this
    exact ⟨_, this⟩
  · -- the crawler has stepped out: the unlink finds nothing to change
    have hp : popped id = true := by
      rcases h.linked _ _ hin with hm' | ⟨-, hp⟩
      · exact absurd hm' hm
      · exact hp
    rcases (h.popped id hp).2 with hc | ⟨-, hprev, hnext⟩
    · rw [hc] at hm; simp at hm
    obtain ⟨e1, e2, e3⟩ := h.ok.unlinkQ_popped
      (show .crawler id ∉ queue (s.heap.slabsClsid (.crawler id)) by rw [hcls]; exact hm) hprev
      (by rw [hcls]; exact hnext)
    have hupd : ∀ x q, Function.update linkedIn (.crawler id) none x = some q ↔
        linkedIn x = some q ∧ x ≠ .crawler id := by
      intro x q
      by_cases e : x = .crawler id
      · subst e; simp
      · simp [e]
    refine ⟨queue, by rw [e1, e2, e3]; exact h.ok, fun x q hx => ?_, fun x q hx => ?_,
      fun id' q hx => h.crawler id' q ((hupd _ _).mp hx).1, fun id' hp' => ?_⟩
    · rw [hupd]
      refine ⟨h.mem x q hx, fun e => ?_⟩
      subst e
      have := h.mem _ _ hx
      rw [hin] at this
      cases this
      exact hm hx
    · obtain ⟨hx, hne⟩ := (hupd x q).mp hx
      refine (h.linked x q hx).imp_right fun ⟨e, hq⟩ => ⟨e, ?_⟩
      rw [Function.update_of_ne (fun e' => hne (by rw [e, e']))]
      exact hq
    · have hne : id' ≠ id := by
        rintro rfl
        rw [Function.update_self] at hp'; cases hp'
      rw [Function.update_of_ne hne] at hp'
      refine ⟨(hupd _ _).mpr ⟨(h.popped id' hp').1, fun e => hne (Ptr.crawler.inj e)⟩, ?_⟩
      exact h.popped_frame hp' rfl fun _ => by rw [e1, e2]; exact ⟨rfl, rfl⟩

theorem other (h : QueueInv s linkedIn popped queue) {t : Store} (hlru : t.lru = s.lru)
    (hlinks : ∀ x, linkedIn x ≠ none →
      t.heap.next x = s.heap.next x ∧ t.heap.prev x = s.heap.prev x)
    (hcls : ∀ id, linkedIn (.crawler id) ≠ none →
      t.heap.slabsClsid (.crawler id) = s.heap.slabsClsid (.crawler id)) :
    QueueInv t linkedIn popped queue where
  ok := by
    rw [hlru]
    exact h.ok.congr fun q x hx => hlinks x (by rw [h.mem x q hx]; simp)
  mem := h.mem
  linked := h.linked
  crawler id q hx := by
    rw [hcls id (by rw [hx]; simp)]
    exact h.crawler id q hx
  popped id hp := ⟨(h.popped id hp).1, h.popped_frame hp rfl fun _ =>
    hlinks _ (by rw [(h.popped id hp).1]; simp)⟩

/-- **Every step keeps the invariant.** -/
theorem step {r r' : QueueRun} (h : QueueInv r.store r.linkedIn r.popped queue)
    (hs : QueueStep r r') : ∃ queue', QueueInv r'.store r'.linkedIn r'.popped queue' := by
  cases hs with
  | link a hnew hid hlock => exact ⟨_, h.link hnew hlock (fun id e => by cases e)⟩
  | unlink a hin hlock =>
    have := h.unlink (h.chunk_mem hin) (fun hp => by rw [hlock] at hp; cases hp)
    rw [← hlock, Function.update_eq_self] at this
    exact ⟨_, this⟩
  | crawlerLink id hid hnew hcls =>
    have hlock : r.popped id = false := by
      cases hp : r.popped id with
      | false => rfl
      | true => rw [(h.popped id hp).1] at hnew; cases hnew
    have := h.link hnew (by rw [hcls]; exact hlock) (fun id' e => by cases e; exact hcls)
    rw [hcls] at this
    exact ⟨_, this⟩
  | crawl id hin hlock => exact h.crawl hin hlock
  | crawlerUnlink id hin => exact h.crawlerUnlink hin
  | other s hlru hlinks hcls => exact ⟨_, h.other hlru hlinks hcls⟩

theorem reach {r : QueueRun} (h : Reach QueueRun.Init QueueStep r) :
    ∃ queue, QueueInv r.store r.linkedIn r.popped queue := by
  refine Reach.invariant (I := fun r => ∃ queue, QueueInv r.store r.linkedIn r.popped queue) h ?_ ?_
  · exact fun _ h0 => ⟨_, init h0⟩
  · exact fun _ _ ⟨_, hq⟩ hs => hq.step hs

end QueueInv

/-- What a run keeps: every queue is a well-formed list, its nodes are those linked to it (a crawler
that has stepped out at the head is linked but no longer met), no node is in two queues, and
`item_sizes_` counts the items. -/
structure LruWellFormed (r : QueueRun) (queue : ℕ → List Ptr) : Prop where
  wellFormed : ∀ q, WellFormed r.store.heap.next r.store.heap.prev (r.store.lru.heads q)
    (r.store.lru.tails q) (queue q)
  members : ∀ x q, (x ∈ queue q → r.linkedIn x = some q) ∧
    (r.linkedIn x = some q → x ∈ queue q ∨ x = .crawler q ∧ r.popped q = true)
  disjoint : ∀ q q' x, x ∈ queue q → x ∈ queue q' → q = q'
  sizes : ∀ q, r.store.lru.itemSizes q = UInt32.ofNat ((queue q).countP Ptr.isChunk)
  sizes_toNat : ∀ q, (queue q).countP Ptr.isChunk < 2 ^ 32 →
    (r.store.lru.itemSizes q).toNat = (queue q).countP Ptr.isChunk

/-- **The LRU queues stay well formed** in every run. -/
theorem queues_wellFormed {r : QueueRun} (h : Reach QueueRun.Init QueueStep r) :
    ∃ queue, LruWellFormed r queue := by
  obtain ⟨queue, hq⟩ := QueueInv.reach h
  refine ⟨queue, fun q => (hq.ok.dll q).wellFormed, fun x q => ⟨hq.mem x q, hq.linked x q⟩,
    hq.ok.disjoint, hq.ok.size, fun q hlt => ?_⟩
  rw [hq.ok.size, UInt32.toNat_ofNat_of_lt' hlt]

/-- A run in which one item and the crawler of its queue are linked and the crawler moves. -/
theorem queues_wellFormed_crawl : ∃ r : QueueRun, r.linkedIn (.chunk 8) = some 0 ∧
    r.linkedIn (.crawler 0) = some 0 ∧ r.store.lru.heads 0 = some (.crawler 0) ∧
    ∃ queue, LruWellFormed r queue := by
  let r : QueueRun := ⟨Store.initial 16 (fun _ => 0) (.initial 0) .failing, fun _ => none,
    fun _ => false⟩
  have h0 : Reach QueueRun.Init QueueStep r :=
    .start ⟨fun _ => ⟨rfl, rfl, rfl⟩, fun _ => rfl, fun _ => rfl⟩
  have h1 := h0.next (.link r 8 rfl (by decide) rfl)
  have h2 := h1.next (.crawlerLink _ 0 (by decide) rfl rfl)
  have h3 := h2.next (.crawl _ 0 rfl rfl)
  exact ⟨_, rfl, rfl, rfl, queues_wellFormed h3⟩

end Mdb
