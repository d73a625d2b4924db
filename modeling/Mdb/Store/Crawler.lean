import Mdb.Store.Ops

/-!
# The crawler

`LRUCrawler`: starting a crawl links a crawler node at the tail of a queue; one iteration of the
crawler thread moves the node up by one item and looks at that item.

* `linkCrawler`, `doLRUCrawlerStart`; `CrawlList`, `lruCrawl`: the start of a crawl;
* `endCrawl`, `crawlItem`, `crawlStep`: the body of the loop in `Run`;
* `Inv.ofCrawler`: what a change of crawler nodes and queues has to respect;
* `Tidies s s' v v'`: only items that are reclaimable may be gone;
* **`Inv.linkCrawler`**, **`Inv.crawlStep`**.
-/

namespace Mdb

open Dll

namespace Store

variable (s : Store)

/-- The body of the `if` in `DoLRUCrawlerStart`: node `sid` is reset and linked, whether or not it is
linked already. -/
def linkCrawler (sid : ℕ) (remaining : UInt32) : Store :=
  let c := Ptr.crawler sid
  let s := { s with
    heap := { s.heap with
      nbytes := Function.update s.heap.nbytes c 0
      key := Function.update s.heap.key c .empty
      itFlags := Function.update s.heap.itFlags c .one
      next := Function.update s.heap.next c none
      prev := Function.update s.heap.prev c none
      time := Function.update s.heap.time c 0
      slabsClsid := Function.update s.heap.slabsClsid c sid }
    crawlers := { s.crawlers with
      remaining := Function.update s.crawlers.remaining sid remaining
      crawlerCount := s.crawlers.crawlerCount + 1 } }
  s.doItemLinkQ c true

/-- One round of the loop in `DoLRUCrawlerStart`, with `starts`. -/
def startQueue (remaining : UInt32) (r : ℕ × Store) (sid : ℕ) : ℕ × Store :=
  if r.2.lru.tails sid = none then r else (r.1 + 1, r.2.linkCrawler sid remaining)

/-- The queues `DoLRUCrawlerStart` looks at. -/
def tocrawl (id : ℕ) : List ℕ :=
  [id ||| LruStatus.hot.val, id ||| LruStatus.warm.val, id ||| LruStatus.cold.val]

/-- `DoLRUCrawlerStart(id, remaining)`. -/
def doLRUCrawlerStart (id : ℕ) (remaining : UInt32) : ℕ × Store :=
  let r := (tocrawl id).foldl (startQueue remaining) (0, s)
  if r.1 = 0 then r
  else
    let s := { r.2 with stats := { r.2.stats with
      lruCrawlerRunning := true
      lruCrawlerStarts := r.2.stats.lruCrawlerStarts + 1 } }
    (r.1, s.bumpCrawl id fun _ => { CrawlerStats.zero with startTime := s.now })

/-- The argument of `LRUCrawl`: the word `all`, or tokens between commas, each as `safe_strtoul`
reads it. -/
inductive CrawlList where
  | all
  | tokens (sids : List (Option ℕ))

/-- `tocrawl` after the loop over the tokens; `none` for a bad class. -/
def CrawlList.classes : CrawlList → Option (ℕ → Bool)
  | .all => some fun _ => true
  | .tokens sids => sids.foldlM (fun (f : ℕ → Bool) sid => do
      let sid ← sid
      if sid < powerSmallest ∨ maxNumberOfSlabClasses - 1 ≤ sid then none
      else some (Function.update f sid true)) fun _ => false

/-- `enum CrawlerResultType`. -/
inductive CrawlerResultType where
  | ok
  | running
  | badclass
  | notstarted
  deriving DecidableEq

/-- One round of the loop of `LRUCrawl` over the classes, with `starts`. -/
def crawlClass (f : ℕ → Bool) (r : ℕ × Store) (sid : ℕ) : ℕ × Store :=
  if f sid then
    let r' := r.2.doLRUCrawlerStart sid r.2.settings.lruCrawlerTocrawl
    (r.1 + r'.1, r'.2)
  else r

/-- The loop of `LRUCrawl` over the classes. -/
def crawlClasses (f : ℕ → Bool) : ℕ × Store :=
  (List.range' powerSmallest (maxNumberOfSlabClasses - powerSmallest)).foldl (crawlClass f) (0, s)

/-- `LRUCrawl(slabs)`, with `lru_crawler_lock_` taken. -/
def lruCrawl (slabs : CrawlList) : CrawlerResultType × Store :=
  match slabs.classes with
  | none => (.badclass, s)
  | some f => (if (s.crawlClasses f).1 = 0 then .notstarted else .ok, (s.crawlClasses f).2)

/-- The end of a crawl of queue `i`. -/
def endCrawl (i : ℕ) : Store :=
  let s := s.setFlags (.crawler i) .none
  let s := { s with crawlers := { s.crawlers with
    crawlerCount := s.crawlers.crawlerCount - 1 } }
  let s := s.doItemUnlinkQ (.crawler i) true
  s.bumpCrawl (clearLru i) fun c => { c with endTime := s.now, runComplete := true }

/-- The crawler of queue `i` has stepped over item `it`. -/
def crawlItem (i : ℕ) (it : Ptr) : Store :=
  match s.tryLock (s.hv it) with
  | (none, s) => s
  | (some lock, s) =>
    let r := s.refcountIncr it
    if r.1 ≠ 2 then (r.2.refcountDecr it).2.tryLockUnlock lock
    else (r.2.itemCrawlerEvaluate it (s.hv it) i).tryLockUnlock lock

/-- The body of the `for` loop in `Run` for queue `i`. -/
def crawlStep (i : ℕ) : Store :=
  if s.flags (.crawler i) ≠ .one then s
  else match s.crawlerCrawlQ (.crawler i) with
    | (none, s) => s.endCrawl i
    | (some it, s) =>
      -- `remaining && --remaining < 1`
      let n := s.crawlers.remaining i
      let s := { s with crawlers := { s.crawlers with
        remaining := Function.update s.crawlers.remaining i (if n = 0 then 0 else n - 1) } }
      if n ≠ 0 ∧ n - 1 < 1 then s.endCrawl i else s.crawlItem i it

end Store

/-- Only reclaimable items may be gone, only others may have a new time. -/
structure Tidies (s s' : Store) (v v' : View) : Prop where
  data : SameData s s'
  sub : ∀ x ∈ v'.items, x ∈ v.items
  lost : ∀ x ∈ v.items, x ∉ v'.items → s.isReclaimable x
  time : ∀ x, s'.heap.time x = s.heap.time x ∨ s'.heap.time x = s.now ∧ ¬ s.isReclaimable x

theorem Tidies.of_same {s s' : Store} {v v' : View} (hd : SameData s s')
    (ht : s'.heap.time = s.heap.time) (hi : v'.items = v.items) : Tidies s s' v v' where
  data := hd
  sub x hx := by rw [hi] at hx; exact hx
  lost x hx hn := by rw [hi] at hn; exact absurd hx hn
  time x := .inl (by rw [ht])

theorem Tidies.of_drops {s s' : Store} {v v' : View} {x : Ptr} (d : Drops s s' v v' x)
    (hr : s.isReclaimable x) : Tidies s s' v v' where
  data := d.data
  sub y hy := by rw [d.items] at hy; exact List.mem_of_mem_erase hy
  lost y hy hn := by
    have e : y = x := by
      by_contra hne
      exact hn (by rw [d.items]; exact (List.mem_erase_of_ne hne).mpr hy)
    rw [e]; exact hr
  time y := .inl (by rw [d.time])

theorem Tidies.quiet_left {s₁ s₂ s₃ : Store} {v v₂ v₃ : View} (q : Quiet s₁ s₂ v v₂)
    (h : Tidies s₂ s₃ v₂ v₃) : Tidies s₁ s₃ v v₃ where
  data := q.data.trans h.data
  sub x hx := by rw [← q.items]; exact h.sub x hx
  lost x hx hn := by
    rw [← q.items] at hx
    exact (q.data.isReclaimable (by rw [q.time])).mp (h.lost x hx hn)
  time x := by
    have := h.time x
    rwa [q.data.isReclaimable (by rw [q.time]), q.time, q.data.now] at this

theorem Tidies.quiet_right {s₁ s₂ s₃ : Store} {v v₂ v₃ : View} (h : Tidies s₁ s₂ v v₂)
    (q : Quiet s₂ s₃ v₂ v₃) : Tidies s₁ s₃ v v₃ where
  data := h.data.trans q.data
  sub x hx := h.sub x (by rw [← q.items]; exact hx)
  lost x hx hn := h.lost x hx (by rw [← q.items]; exact hn)
  time x := by rw [q.time]; exact h.time x

namespace Inv

variable {b : Base} {s t : Store} {v : View} {refs : Ptr → ℕ} {x : Ptr}

/-- **Changes of crawler nodes and queues.** Chunks keep their fields, free ones also their links. -/
theorem ofCrawler (h : Inv b s v refs) {queue : ℕ → List Ptr}
    (hq : QueuesOk t.heap.next t.heap.prev t.lru queue)
    (hfree : ∀ c, ∀ x ∈ v.free c, t.heap.next x = s.heap.next x ∧ t.heap.prev x = s.heap.prev x)
    (hsame : ∀ a, s.heap.SameAt t.heap (.chunk a))
    (hmem : ∀ x q, x ∈ queue q ↔
      x ∈ v.items ∧ s.heap.slabsClsid x = q ∨ x = .crawler q ∧ t.heap.itFlags x = .one)
    (hcr : ∀ q, t.heap.itFlags (.crawler q) = .one → t.heap.slabsClsid (.crawler q) = q ∧
      t.heap.nbytes (.crawler q) = 0 ∧ t.heap.key (.crawler q) = .empty)
    (hcrs : CrawlersOk t) (hassoc : t.assoc = s.assoc) (hslabs : t.slabs = s.slabs)
    (hset : t.settings = s.settings) (hhash : t.hash = s.hash) (htr : t.trace = s.trace)
    (hst : t.stats = s.stats) : Inv b t { v with queue := queue } refs := by
  have hal : ∀ x, v.Alloc x → s.heap.SameAt t.heap x := fun x hx => by
    obtain ⟨a, rfl⟩ := h.alloc_chunk hx
    exact hsame a
  refine ⟨hq, ?_, ?_, ?_, fun a => ?_, h.items_alloc, fun x q => ?_, hcr, fun c x hx => ?_,
    h.refs_zero, ?_, ?_, h.held_le, ?_, fun x hx => ?_, fun c x hx => ?_, ?_, hcrs⟩
  · rw [hassoc, hhash]
    exact h.table.congr fun x hx => (hal x (h.items_alloc x hx)).key
  · rw [hassoc]; exact h.hashpower_le
  · simp only [Store.SlabsOk, hslabs, hset]
    refine h.slabs.congr fun c x hx => ?_
    obtain ⟨a, rfl⟩ := h.slabs.isChunk (.inl hx)
    exact ⟨(hfree c _ hx).1, (hfree c _ hx).2, (hsame a).itFlags, (hsame a).slabsClsid⟩
  · rw [(hsame a).itFlags]; exact h.linked_iff a
  · simp only
    rw [hmem]
    refine or_congr (and_congr_right fun hx => ?_) Iff.rfl
    rw [(hal x (h.items_alloc x hx)).slabsClsid]
  · exact chunkOk_congr (h.alloc_ok c x hx) (hal x ⟨c, hx⟩) rfl
  · rw [htr]; exact h.live
  · rw [htr]; exact h.trace
  · rw [htr]; exact h.events
  · rw [(hal x hx).itFlags, hset]; exact h.casBit x hx
  · obtain ⟨a, rfl⟩ := h.gone_chunk hx
    exact (h.gone c _ hx).congr (hsame a).slabsClsid (hsame a).refcount (hsame a).itFlags
  · refine h.counters.congr (by rw [hst]; exact ⟨rfl, rfl⟩) (by rw [hst, hassoc]; exact h.counters.hash)
      (fun c => by rw [hslabs]; exact ⟨rfl, rfl⟩) (fun x hx => ?_) fun c x hx => ?_
    · exact (hal x (h.items_alloc x hx)).ntotal
    · exact (hal x ⟨c, hx⟩).ntotal

/-! ## Starting -/

/-- **Linking a crawler node** that is not linked. -/
theorem linkCrawler (h : Inv b s v refs) {sid : ℕ} (hlt : sid < largestId)
    (hoff : s.heap.itFlags (.crawler sid) ≠ .one) (remaining : UInt32) :
    Inv b (s.linkCrawler sid remaining)
      { v with queue := Function.update v.queue sid (v.queue sid ++ [.crawler sid]) } refs := by
  have hnot : ∀ q, Ptr.crawler sid ∉ v.queue q := fun q hm => by
    rcases (h.queue_iff _ q).mp hm with ⟨hx, -⟩ | ⟨-, hf⟩
    · cases h.alloc_isChunk (h.items_alloc _ hx)
    · exact hoff hf
  -- the node's fields are written first
  obtain ⟨u, hu⟩ : ∃ u : Store, u = { s with
      heap := { s.heap with
        nbytes := Function.update s.heap.nbytes (.crawler sid) 0
        key := Function.update s.heap.key (.crawler sid) .empty
        itFlags := Function.update s.heap.itFlags (.crawler sid) .one
        next := Function.update s.heap.next (.crawler sid) none
        prev := Function.update s.heap.prev (.crawler sid) none
        time := Function.update s.heap.time (.crawler sid) 0
        slabsClsid := Function.update s.heap.slabsClsid (.crawler sid) sid }
      crawlers := { s.crawlers with
        remaining := Function.update s.crawlers.remaining sid remaining
        crawlerCount := s.crawlers.crawlerCount + 1 } } := ⟨_, rfl⟩
  have he : s.linkCrawler sid remaining = u.doItemLinkQ (.crawler sid) true := by rw [hu]; rfl
  have hcls : u.heap.slabsClsid (.crawler sid) = sid := by rw [hu]; exact Function.update_self _ _ _
  have hq1 : QueuesOk u.heap.next u.heap.prev u.lru v.queue := by
    rw [hu]
    refine h.queues.congr fun q x hx => ?_
    have hne : x ≠ .crawler sid := by rintro rfl; exact hnot q hx
    exact ⟨Function.update_of_ne hne _ _, Function.update_of_ne hne _ _⟩
  have hq2 := hq1.linkQ hnot
  rw [hcls] at hq2
  rw [he]
  have hf : (u.doItemLinkQ (.crawler sid) true).heap.itFlags =
      Function.update s.heap.itFlags (.crawler sid) .one := by rw [hu]; rfl
  have hcrs : CrawlersOk (u.doItemLinkQ (.crawler sid) true) := by
    refine h.crawlers.enable hlt hoff ?_ fun q => by rw [hf]
    rw [hu]; rfl
  refine h.ofCrawler hq2 (fun c x hx => ?_) (fun a => ?_) (fun x q => ?_) (fun q hq => ?_) hcrs
    (by rw [hu]; rfl) (by rw [hu]; rfl) (by rw [hu]; rfl) (by rw [hu]; rfl) (by rw [hu]; rfl)
    (by rw [hu]; rfl)
  · obtain ⟨a, rfl⟩ := h.slabs.isChunk (.inl hx)
    obtain ⟨e1, e2⟩ := hq1.linkQ_frame true
      (show Ptr.chunk a ≠ .crawler sid by simp)
      fun hm => h.queue_not_free hm c hx
    rw [hu] at e1 e2 ⊢
    exact ⟨e1, e2⟩
  · rw [hu]
    exact ⟨rfl, rfl, rfl, rfl, rfl, rfl, rfl, rfl, rfl, rfl⟩
  · rw [QueuesOk.mem_update_append, h.queue_iff, hf]
    by_cases e : x = .crawler sid
    · subst e
      rw [Function.update_self]
      have hni : Ptr.crawler sid ∉ v.items := fun hx => by
        cases h.alloc_isChunk (h.items_alloc _ hx)
      simp only [hni, false_and, false_or, and_true, hoff, and_false, Ptr.crawler.injEq]
      exact eq_comm
    · rw [Function.update_of_ne e]
      simp [e]
  · by_cases e : q = sid
    · subst e
      refine ⟨hcls, ?_, ?_⟩ <;> rw [hu] <;> exact Function.update_self _ _ _
    · have hne : Ptr.crawler q ≠ .crawler sid := fun e' => e (Ptr.crawler.inj e')
      rw [hf, Function.update_of_ne hne] at hq
      obtain ⟨e1, e2, e3⟩ := h.crawler q hq
      refine ⟨Eq.trans ?_ e1, Eq.trans ?_ e2, Eq.trans ?_ e3⟩ <;> rw [hu] <;>
        exact Function.update_of_ne hne _ _

/-! ## Crawling -/

theorem crawlerCrawlQ_frame (s : Store) (it : Ptr) : ∃ n p l,
    (s.crawlerCrawlQ it).2 = { s with heap := { s.heap with next := n, prev := p }, lru := l } := by
  unfold Store.crawlerCrawlQ
  cases s.heap.prev it with
  | none => cases s.heap.next it <;> exact ⟨_, _, _, rfl⟩
  | some y => exact ⟨_, _, _, rfl⟩

/-- A crawler in its queue is linked, and the other nodes are items. -/
theorem crawler_mem (h : Inv b s v refs) {i : ℕ} (hf : s.heap.itFlags (.crawler i) = .one) :
    .crawler i ∈ v.queue i := (h.queue_iff _ i).mpr (.inr ⟨rfl, hf⟩)

theorem mem_items_of_queue (h : Inv b s v refs) {i : ℕ} {x : Ptr} (hx : x ∈ v.queue i)
    (hne : x ≠ .crawler i) : x ∈ v.items := by
  rcases (h.queue_iff x i).mp hx with ⟨hx, -⟩ | ⟨e, -⟩
  · exact hx
  · exact absurd e hne

theorem endCrawl_frame (s : Store) (i : ℕ) : ∃ n p l cr,
    cr.crawlerCount = s.crawlers.crawlerCount - 1 ∧
    s.endCrawl i = { s with
      heap := { s.heap with
        next := n, prev := p, itFlags := Function.update s.heap.itFlags (.crawler i) .none }
      lru := l, crawlers := cr } := ⟨_, _, _, _, rfl, rfl⟩

/-- **A crawler is out of its queue.** -/
theorem crawlerOff (h : Inv b s v refs) {i : ℕ} (hf : s.heap.itFlags (.crawler i) = .one)
    {queue : ℕ → List Ptr} (hmem : ∀ x q, x ∈ queue q ↔ x ∈ v.queue q ∧ x ≠ .crawler i)
    {n p : Ptr → Option Ptr} {l : Lru} {cr : Crawlers}
    (ht : t = { s with
      heap := { s.heap with
        next := n, prev := p, itFlags := Function.update s.heap.itFlags (.crawler i) .none }
      lru := l, crawlers := cr })
    (hcount : cr.crawlerCount = s.crawlers.crawlerCount - 1)
    (hq : QueuesOk t.heap.next t.heap.prev t.lru queue)
    (hfree : ∀ c, ∀ x ∈ v.free c, t.heap.next x = s.heap.next x ∧ t.heap.prev x = s.heap.prev x) :
    Inv b t { v with queue := queue } refs ∧ SameData s t ∧ t.heap.time = s.heap.time := by
  have hfl : t.heap.itFlags = Function.update s.heap.itFlags (.crawler i) .none := by rw [ht]
  have hcrs : CrawlersOk t := by
    refine h.crawlers.disable hf (by rw [ht]; exact hcount) fun q => by rw [hfl]
  refine ⟨h.ofCrawler hq hfree (fun a => ?_) (fun x q => ?_) (fun q hq => ?_) hcrs (by rw [ht])
    (by rw [ht]) (by rw [ht]) (by rw [ht]) (by rw [ht]) (by rw [ht]), ?_, by rw [ht]⟩
  · rw [ht]
    exact ⟨rfl, rfl, rfl, rfl, rfl, rfl, rfl, rfl, rfl, rfl⟩
  · rw [hmem, h.queue_iff, hfl]
    by_cases e : x = .crawler i
    · subst e
      have hni : Ptr.crawler i ∉ v.items := fun hx => by
        cases h.alloc_isChunk (h.items_alloc _ hx)
      rw [Function.update_self]
      constructor
      · exact fun hx => absurd rfl hx.2
      · rintro (⟨hx, -⟩ | ⟨-, e⟩)
        · exact absurd hx hni
        · cases e
    · rw [Function.update_of_ne e]
      simp [e]
  · rw [hfl] at hq
    by_cases e : q = i
    · subst e; rw [Function.update_self] at hq; cases hq
    · rw [Function.update_of_ne fun e' => e (Ptr.crawler.inj e')] at hq
      rw [ht]
      exact h.crawler q hq
  · rw [ht]
    refine ⟨rfl, rfl, rfl, rfl, rfl, rfl, fun x => ?_, rfl, rfl, rfl, rfl, rfl, fun _ => .refl _, rfl⟩
    by_cases e : x = .crawler i
    · subst e; simp [hf]; rfl
    · simp [e]

/-- **The end of a crawl**, the node still being linked. -/
theorem endCrawl (h : Inv b s v refs) {i : ℕ} (hf : s.heap.itFlags (.crawler i) = .one) :
    ∃ v', Inv b (s.endCrawl i) v' refs ∧ v'.items = v.items ∧ SameData s (s.endCrawl i) ∧
      (s.endCrawl i).heap.time = s.heap.time := by
  have hm := h.crawler_mem hf
  have hcls := (h.crawler i hf).1
  have hmu : Ptr.crawler i ∈ v.queue (s.heap.slabsClsid (.crawler i)) := by rw [hcls]; exact hm
  have hq := h.queues.unlinkQ (s := s.setFlags (.crawler i) .none) hmu
  rw [show (s.setFlags (.crawler i) .none).heap.slabsClsid (.crawler i) = i from hcls] at hq
  obtain ⟨n, p, l, cr, hcount, he⟩ := endCrawl_frame s i
  have hmem : ∀ x q, x ∈ Function.update v.queue i ((v.queue i).erase (.crawler i)) q ↔
      x ∈ v.queue q ∧ x ≠ .crawler i := fun x q => by
    rw [QueuesOk.mem_update_erase _ _ _ _ _ (h.queues.dll i).nodup]
    refine and_congr_right fun hx => ⟨fun hne e => ?_, fun hne _ => hne⟩
    exact hne (h.queues.disjoint q i x hx (e ▸ hm)) e
  obtain ⟨h', hd, ht⟩ := h.crawlerOff hf hmem he hcount hq fun c x hx =>
    h.queues.unlinkQ_frame (s := s.setFlags (.crawler i) .none) hmu true
      fun hm => h.queue_not_free hm c hx
  exact ⟨_, h', rfl, hd, ht⟩

/-- **The end of a crawl** at the head of the queue, where the node has stepped out. -/
theorem endCrawl_popped (h : Inv b s v refs) {i : ℕ} (hf : s.heap.itFlags (.crawler i) = .one)
    {z : Ptr} {l : List Ptr} (hq : v.queue i = .crawler i :: z :: l) :
    Inv b ((s.crawlerCrawlQ (.crawler i)).2.endCrawl i)
        { v with queue := Function.update v.queue i (z :: l) } refs ∧
      SameData s ((s.crawlerCrawlQ (.crawler i)).2.endCrawl i) ∧
      ((s.crawlerCrawlQ (.crawler i)).2.endCrawl i).heap.time = s.heap.time := by
  have hcls := (h.crawler i hf).1
  have hnd := (h.queues.dll i).nodup
  rw [hq] at hnd
  have hcq : v.queue (s.heap.slabsClsid (.crawler i)) = .crawler i :: z :: l := by rw [hcls]; exact hq
  obtain ⟨-, hq1, hp, hn⟩ := h.queues.crawl_head hcq rfl
  rw [hcls, if_neg (by simp)] at hq1
  have hcm : .crawler i ∈ v.queue (s.heap.slabsClsid (.crawler i)) := by
    rw [hcls]; exact h.crawler_mem hf
  have hfr : ∀ c, ∀ x ∈ v.free c, _ := fun c x hx =>
    h.queues.crawl_frame (w := x) hcm fun hm => h.queue_not_free hm c hx
  obtain ⟨n, p, lr, hs1⟩ := crawlerCrawlQ_frame s (.crawler i)
  obtain ⟨s1, hs⟩ : ∃ s1, s1 = (s.crawlerCrawlQ (.crawler i)).2 := ⟨_, rfl⟩
  rw [← hs] at hq1 hp hn hs1 hfr ⊢
  obtain ⟨u, hu⟩ : ∃ u : Store, u = s1.setFlags (.crawler i) .none := ⟨_, rfl⟩
  have hqu : QueuesOk u.heap.next u.heap.prev u.lru (Function.update v.queue i (z :: l)) := by
    rw [hu]; exact hq1
  have hcu : u.heap.slabsClsid (.crawler i) = i := by rw [hu, hs1]; exact hcls
  have hout : .crawler i ∉
      Function.update v.queue i (z :: l) (u.heap.slabsClsid (.crawler i)) := by
    rw [hcu, Function.update_self]; exact (List.nodup_cons.mp hnd).1
  -- unlinking a node that is out of the queue changes nothing
  obtain ⟨e1, e2, e3⟩ := hqu.unlinkQ_popped hout
    (by rw [hu]; exact hp) (by rw [hcu, Function.update_self, hu]; exact hn)
  have hmem : ∀ x q, x ∈ Function.update v.queue i (z :: l) q ↔ x ∈ v.queue q ∧ x ≠ .crawler i :=
      fun x q => by
    by_cases e : q = i
    · subst e
      rw [Function.update_self, hq]
      constructor
      · exact fun hx => ⟨List.mem_cons_of_mem _ hx, fun e => (List.nodup_cons.mp hnd).1 (e ▸ hx)⟩
      · exact fun ⟨hx, hne⟩ => (List.mem_cons.mp hx).resolve_left hne
    · rw [Function.update_of_ne e]
      exact ⟨fun hx => ⟨hx, fun e' => e (h.queues.disjoint q i x hx
        (e' ▸ h.crawler_mem hf))⟩, fun hx => hx.1⟩
  obtain ⟨n', p', l', cr, hcount, he⟩ := endCrawl_frame s1 i
  have hn' : (s1.endCrawl i).heap.next = (u.doItemUnlinkQ (.crawler i) true).heap.next := by
    rw [hu]; rfl
  have hp' : (s1.endCrawl i).heap.prev = (u.doItemUnlinkQ (.crawler i) true).heap.prev := by
    rw [hu]; rfl
  have hl' : (s1.endCrawl i).lru = (u.doItemUnlinkQ (.crawler i) true).lru := by rw [hu]; rfl
  refine h.crawlerOff hf hmem (n := n') (p := p') (l := l') (t := s1.endCrawl i)
    (by rw [he, hs1]) (by rw [hcount, hs1]) ?_ fun c x hx => ?_
  · rw [hn', hp', hl', e1, e2, e3]; exact hqu
  · rw [hn', hp', e1, e2, hu]; exact hfr c x hx

theorem mem_items_of_before (h : Inv b s v refs) {i : ℕ} {y : Ptr} {l l' : List Ptr}
    (hq : v.queue i = l ++ y :: .crawler i :: l') : y ∈ v.items := by
  refine h.mem_items_of_queue (by rw [hq]; simp) ?_
  rintro rfl
  have hnd := (h.queues.dll i).nodup
  rw [hq] at hnd
  exact (List.nodup_cons.mp (List.nodup_append.mp hnd).2.1).1 List.mem_cons_self

/-- **A crawl over item `y`.** -/
theorem crawlOver (h : Inv b s v refs) {i : ℕ} (hf : s.heap.itFlags (.crawler i) = .one)
    {y : Ptr} {l l' : List Ptr} (hq : v.queue i = l ++ y :: .crawler i :: l') :
    ∃ s1 v1, s.crawlerCrawlQ (.crawler i) = (some y, s1) ∧ Inv b s1 v1 refs ∧
      v1.items = v.items ∧ SameData s s1 ∧ s1.heap.time = s.heap.time ∧
      s1.heap.itFlags (.crawler i) = .one := by
  obtain ⟨hcls, hnb, hk⟩ := h.crawler i hf
  have hcq : v.queue (s.heap.slabsClsid (.crawler i)) = l ++ y :: .crawler i :: l' := by
    rw [hcls]; exact hq
  obtain ⟨hy, hq1⟩ := h.queues.crawl hcq
  rw [hcls] at hq1
  have hcm : .crawler i ∈ v.queue (s.heap.slabsClsid (.crawler i)) := by
    rw [hcls]; exact h.crawler_mem hf
  have hfr : ∀ c, ∀ x ∈ v.free c, _ := fun c x hx =>
    h.queues.crawl_frame (w := x) hcm
      fun hm => h.queue_not_free hm c hx
  obtain ⟨n, p, lr, hs1⟩ := crawlerCrawlQ_frame s (.crawler i)
  obtain ⟨s1, hs⟩ : ∃ s1, s1 = (s.crawlerCrawlQ (.crawler i)).2 := ⟨_, rfl⟩
  rw [← hs] at hq1 hs1 hfr
  refine ⟨s1, { v with queue := Function.update v.queue i (l ++ .crawler i :: y :: l') },
    Prod.ext hy hs.symm, ?_, rfl, ?_, ?_, ?_⟩
  · refine h.ofCrawler hq1 hfr (fun a => ?_) (fun x q => ?_) (fun q hq => ?_)
      (h.crawlers.congr (by rw [hs1]) fun q => by rw [hs1])
      (by rw [hs1]) (by rw [hs1]) (by rw [hs1]) (by rw [hs1]) (by rw [hs1]) (by rw [hs1])
    · rw [hs1]
      exact ⟨rfl, rfl, rfl, rfl, rfl, rfl, rfl, rfl, rfl, rfl⟩
    · have hmem : x ∈ Function.update v.queue i (l ++ .crawler i :: y :: l') q ↔ x ∈ v.queue q := by
        by_cases e : q = i
        · subst e
          rw [Function.update_self, hq]
          exact ((List.Perm.swap y (.crawler q) l').append_left l).mem_iff
        · rw [Function.update_of_ne e]
      rw [hmem, h.queue_iff, hs1]
    · rw [hs1] at hq ⊢
      exact h.crawler q hq
  · rw [hs1]
    exact ⟨rfl, rfl, rfl, rfl, rfl, rfl, fun _ => rfl, rfl, rfl, rfl, rfl, rfl, fun _ => .refl _, rfl⟩
  · rw [hs1]
  · rw [hs1]; exact hf

/-! ## The item stepped over -/

theorem refcountIncr_decr (s : Store) (x : Ptr) : ((s.refcountIncr x).2.refcountDecr x).2 = s := by
  simp [Store.refcountIncr, Store.refcountDecr, Store.setRefcount]

theorem itemEvaluate_cases (s : Store) (x : Ptr) (hv : UInt32) (id : ℕ) :
    (s.isReclaimable x ∧ ∃ st, s.itemEvaluate x hv id =
      (true, ({ s with itemStats := st }.doItemUnlink x hv).doItemRemove x)) ∨
    ¬ s.isReclaimable x ∧ ∃ st, s.itemEvaluate x hv id = (false, { s with itemStats := st }) := by
  by_cases hr : s.isReclaimable x
  · refine .inl ⟨hr, ?_⟩
    dsimp only [Store.itemEvaluate]
    rw [if_pos (show Store.isReclaimable (s.bump id _) x from hr)]
    split_ifs <;> exact ⟨_, rfl⟩
  · refine .inr ⟨hr, ?_⟩
    dsimp only [Store.itemEvaluate]
    rw [if_neg (show ¬ Store.isReclaimable (s.bump id _) x from hr)]
    exact ⟨_, rfl⟩

/-- **`ItemCrawlerEvaluate`** of an item with the crawler's reference: the item is dropped, or it keeps
that reference and gets one more. -/
theorem itemCrawlerEvaluate (h : Inv b s v (Function.update refs x (refs x + 1))) (hx : x ∈ v.items)
    (hheld : b.held x ≤ refs x) (hle : refs x ≤ 65534) (i : ℕ) :
    ∃ v' refs', Inv b (s.itemCrawlerEvaluate x (s.hv x) i) v' refs' ∧
      Tidies s (s.itemCrawlerEvaluate x (s.hv x) i) v v' ∧
      (refs' = refs ∨ refs' = Function.update refs x (refs x + 2)) := by
  unfold Store.itemCrawlerEvaluate
  rcases itemEvaluate_cases s x (s.hv x) i with ⟨hr, st, he⟩ | ⟨-, st, he⟩
  · obtain ⟨v', hv', d⟩ := (h.aux st s.crawlers s.itemLocks s.env rfl).drop hx hheld hle
    have hq := aux_quiet s v st s.crawlers s.itemLocks s.env
    simp only [he]
    refine ⟨v', refs, hv'.aux _ _ _ _ rfl, ?_, .inl rfl⟩
    have q' := aux_quiet (({ s with itemStats := st }.doItemUnlink x (s.hv x)).doItemRemove x) v'
    exact .of_drops ⟨(hq.data.trans d.data).trans (q' _ _ _ _).data, d.time, d.items, d.queue⟩ hr
  · have h2 := h.incr (h.items_alloc x hx)
    rw [Function.update_self, Function.update_idem] at h2
    simp only [he]
    split_ifs
    all_goals
      exact ⟨v, _, h2.aux _ _ _ _ rfl, .of_same ⟨rfl, rfl, rfl, rfl, rfl, rfl, fun _ => rfl, rfl, rfl,
        rfl, rfl, rfl, fun _ => .refl _, rfl⟩ rfl rfl, .inr rfl⟩

/-- The crawler looks at item `x`, whose references it may leave too high when nobody holds it. -/
theorem crawlItem (h : Inv b s v refs) (hx : x ∈ v.items) (hle : refs x ≤ 65534) (i : ℕ) :
    ∃ v' refs', Inv b (s.crawlItem i x) v' refs' ∧ Tidies s (s.crawlItem i x) v v' ∧
      (refs' = refs ∨ refs x = 0 ∧ refs' = Function.update refs x (refs x + 2)) := by
  unfold Store.crawlItem
  obtain ⟨e, ht⟩ | ⟨lock, e, ht⟩ := s.tryLock_cases (s.hv x)
  · rw [ht]
    have q := aux_quiet s v s.itemStats s.crawlers s.itemLocks e
    exact ⟨v, refs, h.aux _ _ _ e rfl, .of_same q.data q.time q.items, .inl rfl⟩
  · rw [ht]
    have h1 := h.aux s.itemStats s.crawlers (lock :: s.itemLocks) e rfl
    have q1 := aux_quiet s v s.itemStats s.crawlers (lock :: s.itemLocks) e
    obtain ⟨s1, hs1⟩ : ∃ s1, s1 = ({ s with env := e, itemLocks := lock :: s.itemLocks } : Store) :=
      ⟨_, rfl⟩
    replace h1 : Inv b s1 v refs := by rw [hs1]; exact h1
    replace q1 : Quiet s s1 v v := by rw [hs1]; exact q1
    rw [← hs1]
    dsimp only
    split_ifs with hr2
    · rw [refcountIncr_decr]
      have q2 := q1.trans (aux_quiet s1 v s1.itemStats s1.crawlers (s1.itemLocks.erase lock) s1.env)
      exact ⟨v, refs, h1.aux _ _ _ _ rfl, .of_same q2.data q2.time q2.items, .inl rfl⟩
    · have hr0 : refs x = 0 := by
        have hrc := (h1.refcount_item hx).symm
        replace hr2 : (s1.heap.refcount x + 1) % 65536 = 2 := not_not.mp hr2
        omega
      have h2 := h1.incr (h1.items_alloc x hx)
      have q2 := q1.trans (incr_quiet s1 v x)
      obtain ⟨v', refs', h', td, hr⟩ := h2.itemCrawlerEvaluate hx (h.held_le x) hle i
      obtain ⟨u, hu⟩ : ∃ u, u = (s1.refcountIncr x).2.itemCrawlerEvaluate x
        ((s1.refcountIncr x).2.hv x) i := ⟨_, rfl⟩
      rw [← hu] at h' td
      have he : (s1.refcountIncr x).2.itemCrawlerEvaluate x (s1.hv x) i = u := by rw [hu]; rfl
      rw [he]
      have q' := aux_quiet u v' u.itemStats u.crawlers (u.itemLocks.erase lock) u.env
      exact ⟨v', refs', h'.aux _ _ _ _ rfl, (td.quiet_left q2).quiet_right q', hr.imp id fun e => ⟨hr0, e⟩⟩

/-- **One iteration of the crawler thread** on queue `i`. -/
theorem crawlStep (h : Inv b s v refs) (hle : ∀ x, refs x ≤ 65534) (i : ℕ) :
    ∃ v' refs', Inv b (s.crawlStep i) v' refs' ∧ Tidies s (s.crawlStep i) v v' ∧
      (refs' = refs ∨ ∃ x, refs x = 0 ∧ refs' = Function.update refs x (refs x + 2)) := by
  unfold Store.crawlStep
  split_ifs with hf
  · exact ⟨v, refs, h, .of_same (.refl s) rfl rfl, .inl rfl⟩
  · replace hf : s.heap.itFlags (.crawler i) = .one := not_not.mp hf
    obtain ⟨l, l', hq⟩ := List.append_of_mem (h.crawler_mem hf)
    rcases List.eq_nil_or_concat' l with rfl | ⟨l, y, rfl⟩
    · -- the crawler is at the head of its queue
      have hcq : v.queue (s.heap.slabsClsid (.crawler i)) = .crawler i :: l' := by
        rw [(h.crawler i hf).1]; exact hq
      have hnone := (h.queues.crawl_head hcq rfl).1
      have hc : s.crawlerCrawlQ (.crawler i) = (none, (s.crawlerCrawlQ (.crawler i)).2) :=
        Prod.ext hnone rfl
      rw [hc]
      cases l' with
      | nil =>
        have hd := h.queues.dll i
        rw [hq] at hd
        have hs : (s.crawlerCrawlQ (.crawler i)).2 = s := by
          obtain ⟨hp, hn⟩ := hd.mid
          simp only [List.getLast?_nil, List.head?_nil] at hp hn
          simp only [Store.crawlerCrawlQ, hp, hn]
        dsimp only
        rw [hs]
        obtain ⟨v', h', hi, hd', ht⟩ := h.endCrawl hf
        exact ⟨v', refs, h', .of_same hd' ht hi, .inl rfl⟩
      | cons z l' =>
        obtain ⟨h', hd, ht⟩ := h.endCrawl_popped hf hq
        exact ⟨_, refs, h', .of_same hd ht rfl, .inl rfl⟩
    · have hq' : v.queue i = l ++ y :: .crawler i :: l' := by rw [hq, List.append_assoc]; rfl
      obtain ⟨s1, v1, hc, h1, i1, d1, t1, f1⟩ := h.crawlOver hf hq'
      rw [hc]
      dsimp only
      have hy := h.mem_items_of_before hq'
      obtain ⟨s2, hs2⟩ : ∃ s2, s2 = ({ s1 with crawlers := { s1.crawlers with
        remaining := Function.update s1.crawlers.remaining i (if s1.crawlers.remaining i = 0 then 0
          else s1.crawlers.remaining i - 1) } } : Store) := ⟨_, rfl⟩
      have h2 : Inv b s2 v1 refs := by
        rw [hs2]; exact h1.aux s1.itemStats _ s1.itemLocks s1.env rfl
      have q2 : Quiet s1 s2 v1 v1 := by
        rw [hs2]; exact aux_quiet s1 v1 s1.itemStats _ s1.itemLocks s1.env
      have d2 := d1.trans q2.data
      rw [← hs2]
      split_ifs
      · obtain ⟨v', h', hi, hd', ht⟩ := h2.endCrawl (i := i) (by rw [hs2]; exact f1)
        exact ⟨v', refs, h', .of_same (d2.trans hd') (ht.trans (q2.time.trans t1)) (hi.trans i1),
          .inl rfl⟩
      · obtain ⟨v', refs', h', td, hr⟩ := h2.crawlItem (by rw [i1]; exact hy) (hle y) i
        have t2 : ∀ x, s2.heap.time x = s.heap.time x := fun x => by rw [q2.time, t1]
        refine ⟨v', refs', h', ⟨d2.trans td.data, fun x hx => by rw [← i1]; exact td.sub x hx,
          fun x hx hn => ?_, fun x => ?_⟩, hr.imp (fun e => e) fun e => ⟨y, e⟩⟩
        · exact (d2.isReclaimable (t2 x)).mp (td.lost x (by rw [i1]; exact hx) hn)
        · have := td.time x
          rw [d2.isReclaimable (t2 x), t2 x, d2.now] at this
          exact this

end Inv

end Mdb
