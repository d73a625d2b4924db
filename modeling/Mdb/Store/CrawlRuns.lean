import Mdb.Store.Coherence

/-!
# Starting crawls

`LRUCrawlerStart` and `LRUCrawl` against the crawler thread. Both take `lru_crawler_lock_` with
`trylock`; the thread gives it up only while it waits for work.

* `CrawlerPc`, `CrawlRun`, `CrawlCall`, `CrawlRun.exec`: the thread, the callers and the clients;
* `Inv.crawlClasses`: the loop of `LRUCrawl`;
* `CrawlCall.Ok`: no crawl is started in a queue whose crawler is still linked;
* `CrawlersSafe`, **`crawls_safe`**: then every crawler is in its queue at most once and is counted.
-/

namespace Mdb

open Dll Run

/-- Where the crawler thread is: in `pthread_cond_wait`, or at queue `i` of its loop. -/
inductive CrawlerPc where
  | waiting
  | crawling (i : ℕ)
  deriving DecidableEq

/-- The store with its clients, and the crawler thread. -/
structure CrawlRun where
  world : World
  pc : CrawlerPc

/-- What can happen: a client's operation, the two ways to start a crawl, the end of the wait (with or
without a signal), and one round of the thread's loop. -/
inductive CrawlCall where
  | client (op : Op)
  | start (id : ℕ) (remaining : UInt32)
  | crawl (slabs : Store.CrawlList)
  | wake
  | iterate

namespace CrawlRun

variable (r : CrawlRun)

def setStore (s : Store) : CrawlRun := { r with world := { r.world with store := s } }

/-- `while (crawler_count_)`, and what follows when there is nothing to crawl. -/
def loopTop : CrawlRun :=
  if r.world.store.crawlers.crawlerCount ≠ 0 then { r with pc := .crawling powerSmallest }
  else { r.setStore { r.world.store with
    stats := { r.world.store.stats with lruCrawlerRunning := false } } with pc := .waiting }

/-- One round of the `for` loop, for queue `i`. -/
def iterate (i : ℕ) : CrawlRun :=
  let r := r.setStore (r.world.store.crawlStep i)
  if i + 1 < largestId then { r with pc := .crawling (i + 1) } else r.loopTop

/-- **One step.** While the thread crawls, `pthread_mutex_trylock` fails. -/
def exec : CrawlCall → CrawlRun
  | .client op => { r with world := (r.world.exec op).2 }
  | .start id remaining =>
    if r.pc = .waiting then r.setStore (r.world.store.doLRUCrawlerStart id remaining).2 else r
  | .crawl slabs => if r.pc = .waiting then r.setStore (r.world.store.lruCrawl slabs).2 else r
  | .wake => if r.pc = .waiting then r.loopTop else r
  | .iterate =>
    match r.pc with
    | .waiting => r
    | .crawling i => r.iterate i

/-- The steps, one after the other. -/
def run (calls : List CrawlCall) : CrawlRun := calls.foldl exec r

/-- An initialised store, with the thread waiting for work. -/
def Init : Prop := r.world.Init ∧ r.pc = .waiting

end CrawlRun

/-- The operations other than those of the crawler. -/
def Op.NotCrawler : Op → Prop
  | .crawlStart _ _ | .crawlStep _ => False
  | _ => True

/-- **The condition.** The nodes that starting a crawl would link are not linked already. -/
def CrawlCall.Ok (r : CrawlRun) : CrawlCall → Prop
  | .client op => op.NotCrawler ∧ op.Exact ∧ op.Ok r.world
  | .start id _ => r.pc = .waiting → r.world.store.CanStart id
  | .crawl slabs => r.pc = .waiting → ∀ f, slabs.classes = some f →
      ∀ id, powerSmallest ≤ id → id < maxNumberOfSlabClasses → f id = true →
        r.world.store.CanStart id
  | .wake | .iterate => True

/-- One step under that condition; clients hold fewer than 65533 references to an item. -/
def CrawlStep (r r' : CrawlRun) : Prop :=
  ∃ call : CrawlCall, call.Ok r ∧ (∀ x, r.world.held x < 65533) ∧ r' = r.exec call

/-! ## Starting crawls of several classes -/

namespace Inv

variable {b : Base} {s : Store} {v : View} {refs : Ptr → ℕ}

theorem tocrawl_clearLru {id : ℕ} (h : id < maxNumberOfSlabClasses) :
    ∀ sid ∈ Store.tocrawl id, clearLru sid = id := by
  have : ∀ c : Fin 64, ∀ sid ∈ Store.tocrawl c, clearLru sid = c := by decide
  exact this ⟨id, h⟩

/-- A queue whose node is not linked stays as it is. -/
structure SameNode (s s' : Store) (sid : ℕ) : Prop where
  tails : s'.lru.tails sid = s.lru.tails sid
  itFlags : s'.heap.itFlags (.crawler sid) = s.heap.itFlags (.crawler sid)

theorem startQueues_frame (remaining : UInt32) (sids : List ℕ) {sid : ℕ} (hn : sid ∉ sids) :
    ∀ (n : ℕ) (s : Store), SameNode s (sids.foldl (Store.startQueue remaining) (n, s)).2 sid := by
  induction sids with
  | nil => exact fun _ _ => ⟨rfl, rfl⟩
  | cons sid' sids ih =>
    intro n s
    rw [List.mem_cons, not_or] at hn
    rw [List.foldl_cons, Store.startQueue]
    split_ifs
    · exact ih hn.2 n s
    · have h1 := linkCrawler_frame s hn.1 remaining
      have h2 := ih hn.2 (n + 1) (s.linkCrawler sid' remaining)
      exact ⟨h2.tails.trans h1.1, h2.itFlags.trans h1.2⟩

/-- Starting a crawl of one class does not keep another from being started. -/
theorem canStart_of_ne {id id' : ℕ} (hne : id' ≠ id) (hid : id < maxNumberOfSlabClasses)
    (h : s.CanStart id') (remaining : UInt32) :
    (s.doLRUCrawlerStart id remaining).2.CanStart id' := by
  refine ⟨h.1, fun sid hm => ?_⟩
  have hn : sid ∉ Store.tocrawl id := fun hm' =>
    hne ((tocrawl_clearLru h.1 sid hm).symm.trans (tocrawl_clearLru hid sid hm'))
  have hf : SameNode s (s.doLRUCrawlerStart id remaining).2 sid := by
    have := startQueues_frame remaining (Store.tocrawl id) hn 0 s
    dsimp only [Store.doLRUCrawlerStart]
    split_ifs
    · exact this
    · exact ⟨this.tails, this.itFlags⟩
  rw [hf.tails, hf.itFlags]
  exact h.2 sid hm

/-- **The loop of `LRUCrawl`**, when none of the nodes is linked. -/
theorem crawlClasses (h : Inv b s v refs) {f : ℕ → Bool}
    (hf : ∀ id, powerSmallest ≤ id → id < maxNumberOfSlabClasses → f id = true → s.CanStart id) :
    ∃ v', Inv b (s.crawlClasses f).2 v' refs ∧ Crawls s (s.crawlClasses f).2 := by
  have hloop : ∀ (cs : List ℕ) (n : ℕ) (s : Store) (v : View), cs.Nodup → Inv b s v refs →
      (∀ id ∈ cs, f id = true → s.CanStart id) →
      ∃ v', Inv b (cs.foldl (Store.crawlClass f) (n, s)).2 v' refs ∧
        Crawls s (cs.foldl (Store.crawlClass f) (n, s)).2 := by
    intro cs
    induction cs with
    | nil => exact fun n s v _ h _ => ⟨v, h, .refl s⟩
    | cons id cs ih =>
      intro n s v hnd h hcan
      rw [List.nodup_cons] at hnd
      rw [List.foldl_cons, Store.crawlClass]
      split_ifs with hfid
      · have hid := hcan id List.mem_cons_self hfid
        obtain ⟨v1, h1, -, c1⟩ := h.doLRUCrawlerStart hid s.settings.lruCrawlerTocrawl
        obtain ⟨v', h', c'⟩ := ih (n + (s.doLRUCrawlerStart id s.settings.lruCrawlerTocrawl).1) _ v1
          hnd.2 h1 fun id' hm hf' => canStart_of_ne (by rintro rfl; exact hnd.1 hm) hid.1
            (hcan id' (List.mem_cons_of_mem _ hm) hf') _
        exact ⟨v', h', c1.trans c'⟩
      · exact ih n s v hnd.2 h fun id' hm => hcan id' (List.mem_cons_of_mem _ hm)
  refine hloop _ 0 s v List.nodup_range' h fun id hm => ?_
  rw [List.mem_range'_1] at hm
  exact hf id hm.1 (by have := hm.2; simp only [powerSmallest, maxNumberOfSlabClasses] at *; omega)

/-- **`LRUCrawl`.** -/
theorem lruCrawl (h : Inv b s v refs) {slabs : Store.CrawlList}
    (hf : ∀ f, slabs.classes = some f → ∀ id, powerSmallest ≤ id → id < maxNumberOfSlabClasses →
      f id = true → s.CanStart id) :
    ∃ v', Inv b (s.lruCrawl slabs).2 v' refs ∧ Crawls s (s.lruCrawl slabs).2 := by
  unfold Store.lruCrawl
  cases hc : slabs.classes with
  | none => exact ⟨v, h, .refl s⟩
  | some f => exact h.crawlClasses (hf f hc)

end Inv

/-! ## Runs -/

namespace CrawlRun

/-- The invariant along a run: the crawler has kept at most two references to an item. -/
structure Guarded (r : CrawlRun) : Prop where
  tracked : ∃ refs, r.world.Tracked refs ∧ ∀ x, refs x ≤ r.world.held x + 2
  off : r.world.store.settings.lruMaintainerThread = false

variable {r : CrawlRun}

theorem Guarded.init (h : r.Init) : r.Guarded := by
  have hb := World.Balanced.init h.1
  exact ⟨⟨r.world.held, hb.tracked, fun x => Nat.le_add_right _ _⟩, hb.off⟩

/-- The store has become `s'`, the settings and the references held are the same. -/
theorem Guarded.setStore (h : r.Guarded) {s' : Store} (hs : s'.settings = r.world.store.settings)
    (hinv : ∀ v refs, (∀ x, refs x ≤ r.world.held x + 2) →
      Inv ⟨fun _ => 0, r.world.store.trace, .none⟩ r.world.store v refs →
      ∃ v' refs', Inv ⟨fun _ => 0, r.world.store.trace, .none⟩ s' v' refs' ∧
        ∀ x, refs x ≤ refs' x ∧ refs' x ≤ max (refs x) 2) : (r.setStore s').Guarded := by
  obtain ⟨refs, ht, hle⟩ := h.tracked
  obtain ⟨v, hv⟩ := ht.inv
  obtain ⟨v', refs', h', hb⟩ := hinv v refs hle hv
  refine ⟨⟨refs', ⟨hs ▸ ht.settings, ⟨v', h'.rebase fun _ => Nat.zero_le _⟩, fun x => ?_⟩,
    fun x => ?_⟩, hs ▸ h.off⟩
  · exact (ht.held_le x).trans (hb x).1
  · refine (hb x).2.trans (max_le (hle x) (Nat.le_add_left _ _))

/-- A change that neither takes nor gives references. -/
theorem Guarded.setStore_same (h : r.Guarded) {s' : Store}
    (hs : s'.settings = r.world.store.settings)
    (hinv : ∀ v refs, Inv ⟨fun _ => 0, r.world.store.trace, .none⟩ r.world.store v refs →
      ∃ v', Inv ⟨fun _ => 0, r.world.store.trace, .none⟩ s' v' refs) : (r.setStore s').Guarded :=
  h.setStore hs fun v refs _ hv => by
    obtain ⟨v', h'⟩ := hinv v refs hv
    exact ⟨v', refs, h', fun x => ⟨le_rfl, le_max_left _ _⟩⟩

theorem Guarded.loopTop (h : r.Guarded) : r.loopTop.Guarded := by
  unfold CrawlRun.loopTop
  split_ifs
  · exact ⟨h.tracked, h.off⟩
  · obtain ⟨s', hs'⟩ : ∃ s', s' = { r.world.store with
      stats := { r.world.store.stats with lruCrawlerRunning := false } } := ⟨_, rfl⟩
    have hset : s'.settings = r.world.store.settings := by rw [hs']
    have := h.setStore_same hset fun v refs hv => ⟨v, by
      rw [hs']
      exact hv.agree ⟨rfl, rfl, rfl, rfl, rfl, rfl, rfl, rfl, rfl, rfl, rfl, rfl, rfl, rfl, rfl, rfl,
        rfl, rfl, rfl⟩⟩
    rw [hs'] at this
    exact ⟨this.tracked, this.off⟩

/-- A round of the thread keeps two references at most, to an item nobody has. -/
theorem Guarded.crawlStep (h : r.Guarded) (hfew : ∀ x, r.world.held x < 65533) (i : ℕ) :
    (r.setStore (r.world.store.crawlStep i)).Guarded := by
  obtain ⟨refs₀, ht, hle₀⟩ := h.tracked
  obtain ⟨v₀, hv₀⟩ := ht.inv
  have hle : ∀ {refs : Ptr → ℕ}, (∀ x, refs x ≤ r.world.held x + 2) → ∀ x, refs x ≤ 65534 :=
    fun hle x => by have := hle x; have := hfew x; omega
  refine h.setStore ?_ fun v refs hr hv => ?_
  · obtain ⟨_, _, _, td, _⟩ := hv₀.crawlStep (hle hle₀) i
    exact td.data.settings
  · obtain ⟨v', refs', h', -, e⟩ := hv.crawlStep (hle hr) i
    refine ⟨v', refs', h', fun x => ?_⟩
    rcases e with rfl | ⟨y, h0, rfl⟩
    · exact ⟨le_rfl, le_max_left _ _⟩
    · by_cases e : x = y
      · subst e; rw [Function.update_self, h0]; exact ⟨Nat.zero_le _, le_max_right _ _⟩
      · rw [Function.update_of_ne e]; exact ⟨le_rfl, le_max_left _ _⟩

/-- **One step.** -/
theorem Guarded.exec (h : r.Guarded) {call : CrawlCall} (hok : call.Ok r)
    (hfew : ∀ x, r.world.held x < 65533) : (r.exec call).Guarded := by
  cases call with
  | client op =>
    obtain ⟨refs, ht, hle⟩ := h.tracked
    obtain ⟨refs', h', he⟩ := ht.exec hok.2.2 fun x => by
      rw [Store.slack, h.off]
      have := hle x
      have := hfew x
      simp only [Bool.false_eq_true, if_false]
      omega
    obtain ⟨he, hoff⟩ := he hok.2.1 h.off
    refine ⟨⟨refs', h', fun x => ?_⟩, hoff⟩
    have := he x
    have := hle x
    show refs' x ≤ (r.world.exec op).2.held x + 2
    omega
  | start id remaining =>
    unfold CrawlRun.exec
    split_ifs with hp
    · have hc := hok hp
      obtain ⟨refs₀, ht, -⟩ := h.tracked
      obtain ⟨v₀, hv₀⟩ := ht.inv
      obtain ⟨-, -, -, c⟩ := hv₀.doLRUCrawlerStart hc remaining
      refine h.setStore_same c.globals.settings fun v refs hv => ?_
      obtain ⟨v', h', -⟩ := hv.doLRUCrawlerStart hc remaining
      exact ⟨v', h'⟩
    · exact h
  | crawl slabs =>
    unfold CrawlRun.exec
    split_ifs with hp
    · have hc := hok hp
      obtain ⟨refs₀, ht, -⟩ := h.tracked
      obtain ⟨v₀, hv₀⟩ := ht.inv
      obtain ⟨-, -, c⟩ := hv₀.lruCrawl hc
      refine h.setStore_same c.globals.settings fun v refs hv => ?_
      obtain ⟨v', h', -⟩ := hv.lruCrawl hc
      exact ⟨v', h'⟩
    · exact h
  | wake =>
    unfold CrawlRun.exec
    split_ifs
    · exact h.loopTop
    · exact h
  | iterate =>
    unfold CrawlRun.exec
    cases r.pc with
    | waiting => exact h
    | crawling i =>
      have h1 := h.crawlStep hfew i
      dsimp only [CrawlRun.iterate]
      split_ifs
      · exact ⟨h1.tracked, h1.off⟩
      · exact h1.loopTop

end CrawlRun

/-- **The crawlers are safe**: every queue is a well-formed list, a crawler is in its own queue once if
its `it_flags` is 1 and nowhere otherwise, and `crawler_count_` is the number of those. -/
structure CrawlersSafe (s : Store) (queue : ℕ → List Ptr) : Prop where
  wellFormed : ∀ q, WellFormed s.heap.next s.heap.prev (s.lru.heads q) (s.lru.tails q) (queue q)
  once : ∀ i q, (queue q).count (.crawler i) =
    if q = i ∧ s.heap.itFlags (.crawler i) = .one then 1 else 0
  count : s.crawlers.crawlerCount = s.heap.crawling.length

theorem Inv.crawlersSafe {b : Base} {s : Store} {v : View} {refs : Ptr → ℕ} (h : Inv b s v refs) :
    CrawlersSafe s v.queue := by
  refine ⟨fun q => (h.queues.dll q).wellFormed, fun i q => ?_, h.crawlers.count⟩
  refine count_of_mem_iff (h.queues.dll q).nodup ?_
  rw [h.queue_iff]
  constructor
  · rintro (⟨hx, -⟩ | ⟨e, hf⟩)
    · cases h.alloc_isChunk (h.items_alloc _ hx)
    · exact ⟨(Ptr.crawler.inj e).symm, hf⟩
  · rintro ⟨rfl, hf⟩
    exact .inr ⟨rfl, hf⟩

/-- The small store with one stored item, and the crawler thread waiting. -/
def smallCrawl : CrawlRun :=
  ⟨smallWorld.run [.alloc (.byte 97) 0 0 3 0, .store (.chunk 4192) .set], .waiting⟩

end Mdb
