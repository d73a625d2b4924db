import Mdb.Store.CrawlRefs

/-!
# When a class is crawled again

The crawlers of a class share one `CrawlerStats`: a histogram of when the items they found alive are
going to expire, and the time at which one of them was done. `LRUMaintainerCrawlerCheck` takes from these
how many items have expired since.

* `availableReclaims`: that number;
* `Recrawl`, `RecrawlCall`: crawlers, clock, starts and checks, with the items that were counted;
* `Evaluated`, `crawlItem_evaluated`: what an evaluation does to the statistics;
* `Recrawl.Counts`: the histogram and the items in it;
* **`reclaims_expired`**: once no crawler of the class is at work, or nothing was counted after the time
  at which the last one was done, the number is at most that of the counted items that have expired;
  **`reclaims_alive`**: before that, it may have items in it that have not.
-/

namespace Mdb

open Run

/-! ## The check -/

namespace Store

variable (s : Store)

/-- The loop of `LRUMaintainerCrawlerCheck` over `histo`, from bucket `x` on. -/
def availableFrom (histo : ℕ → UInt64) (sinceRun : UInt32) : ℕ → ℕ → UInt64 → UInt64
  | 0, _, available => available
  | n + 1, x, available =>
    if sinceRun.toNat < x * 60 + 60 then available
    else availableFrom histo sinceRun n (x + 1) (available + histo x)

/-- `since_run`. -/
def sinceRun (id : ℕ) : UInt32 := s.now - (s.crawlers.crawlerStats id).endTime

/-- `available_reclaims`. -/
def availableReclaims (id : ℕ) : UInt64 :=
  availableFrom (s.crawlers.crawlerStats id).histo (s.sinceRun id) 60 0 0

/-- The crawler counts item `it` in `histo`. -/
def countsIn (it : Ptr) : Bool :=
  s.findsLive it && s.heap.exptime it ≠ 0 && s.heap.exptime it - s.now ≤ 3599

/-- The item that the iteration for queue `i` counts in `histo`. -/
def crawlCounts (i : ℕ) : Option Ptr :=
  match s.crawlTarget i with
  | none => none
  | some (it, u) => if u.countsIn it then some it else none

/-- The node that the iteration for queue `i` comes to is an item, not another crawler. -/
def crawlsItem (i : ℕ) : Bool :=
  match s.crawlTarget i with
  | none => true
  | some (it, _) => it.isChunk

/-- No crawler of class `id` is at work. -/
def NotCrawled (id : ℕ) : Prop :=
  ∀ i < largestId, clearLru i = id → s.flags (.crawler i) ≠ .one

end Store

/-- The store, the variables that `LRUMaintainerCrawlerCheck` keeps, and for each class the items that
were counted in `histo` since it was reset, with the time of the count. -/
structure Recrawl where
  store : Store
  lastCrawls : ℕ → UInt32
  nextCrawlWait : ℕ → UInt32
  counted : ℕ → List (Ptr × UInt32)

/-- What can happen: an iteration of the crawler thread for a queue, a crawl started by a client, the
clock, the two critical sections of a round of the loop in `LRUMaintainerCrawlerCheck`, the first one
with whether `lru_crawler_lock_` was free, and anything else that other threads do to the store. -/
inductive RecrawlCall where
  | iterate (i : ℕ)
  | start (id : ℕ) (remaining : UInt32)
  | tick (now : UInt32)
  | kick (id : ℕ) (got : Bool)
  | check (id : ℕ)
  | other (s : Store)

namespace Recrawl

variable (r : Recrawl)

/-- An iteration for queue `i`. -/
def iterate (i : ℕ) : Recrawl :=
  { r with
    store := r.store.crawlStep i
    counted := match r.store.crawlCounts i with
      | none => r.counted
      | some it => Function.update r.counted (clearLru i)
          ((it, r.store.now) :: r.counted (clearLru i)) }

/-- `DoLRUCrawlerStart(id, remaining)`; the statistics are reset if there is anything to crawl. -/
def start (id : ℕ) (remaining : UInt32) : Recrawl :=
  { r with
    store := (r.store.doLRUCrawlerStart id remaining).2
    counted := if (r.store.doLRUCrawlerStart id remaining).1 = 0 then r.counted
      else Function.update r.counted id [] }

/-- A class that is due is crawled. -/
def kick (id : ℕ) (got : Bool) : Recrawl :=
  if r.lastCrawls id = 0 ∧ got = true then
    if 0 < (r.store.doLRUCrawlerStart id 0).1 then
      { r.start id 0 with lastCrawls := Function.update r.lastCrawls id r.store.now }
    else r.start id 0
  else r

/-- Whether the class is due again, and how long to wait then. -/
def check (id : ℕ) : Recrawl :=
  let cs := r.store.crawlers.crawlerStats id
  let lowWatermark := cs.seen / 100 + 1
  let wait := r.nextCrawlWait id
  if cs.runComplete = true then
    if lowWatermark < r.store.availableReclaims id then
      { r with
        lastCrawls := Function.update r.lastCrawls id 0
        nextCrawlWait := Function.update r.nextCrawlWait id (if 60 < wait then wait - 60 else wait) }
    else if 5 < r.store.sinceRun id ∧ wait < r.store.sinceRun id then
      { r with
        lastCrawls := Function.update r.lastCrawls id 0
        nextCrawlWait := Function.update r.nextCrawlWait id (if wait < 10 then wait + 60 else wait) }
    else r
  else r

/-- **One step.** -/
def exec : RecrawlCall → Recrawl
  | .iterate i => r.iterate i
  | .start id remaining => r.start id remaining
  | .tick now => { r with store := { r.store with now := now } }
  | .kick id got => r.kick id got
  | .check id => r.check id
  | .other s => { r with store := s }

/-- The steps, one after the other. -/
def run (calls : List RecrawlCall) : Recrawl := calls.foldl exec r

/-- Nothing has been counted, and no crawl is complete. -/
def Init : Prop :=
  (∀ c b, (r.store.crawlers.crawlerStats c).histo b = 0) ∧
    (∀ c, (r.store.crawlers.crawlerStats c).runComplete = false) ∧ ∀ c, r.counted c = []

end Recrawl

/-- Other threads leave the crawl statistics, the crawlers and the clock alone. An item that was counted
keeps its expiry, and since the crawler's references are never given back, it has others than that of
its link. -/
structure Recrawl.Others (r : Recrawl) (s : Store) : Prop where
  crawlerStats : s.crawlers.crawlerStats = r.store.crawlers.crawlerStats
  crawlers : ∀ i, s.flags (.crawler i) = r.store.flags (.crawler i)
  now : s.now = r.store.now
  exptime : ∀ c, ∀ e ∈ r.counted c, s.heap.exptime e.1 = r.store.heap.exptime e.1
  refcount : ∀ c, ∀ e ∈ r.counted c, s.heap.refcount e.1 % 2 ^ 16 ≠ 1

/-- The clock does not go back, and crawlers come to items. -/
def RecrawlCall.Ok (r : Recrawl) : RecrawlCall → Prop
  | .iterate i => i < largestId ∧ r.store.crawlsItem i = true
  | .tick now => r.store.now ≤ now
  | .other s => r.Others s
  | _ => True

/-- A step that may happen. -/
def RecrawlStep (r r' : Recrawl) : Prop := ∃ call, call.Ok r ∧ r' = r.exec call

theorem crawlTarget_some {s u : Store} {i : ℕ} {it : Ptr} (h : s.crawlTarget i = some (it, u)) :
    s.flags (.crawler i) = .one ∧ (s.crawlerCrawlQ (.crawler i)).1 = some it := by
  unfold Store.crawlTarget at h
  by_cases hf : s.flags (.crawler i) ≠ .one
  · rw [if_pos hf] at h
    cases h
  · rw [if_neg hf] at h
    refine ⟨not_not.mp hf, ?_⟩
    generalize s.crawlerCrawlQ (.crawler i) = q at h ⊢
    obtain ⟨_ | y, w⟩ := q
    · cases h
    · dsimp only at h
      by_cases hc : w.crawlers.remaining i ≠ 0 ∧ w.crawlers.remaining i - 1 < 1
      · rw [if_pos hc] at h
        cases h
      · rw [if_neg hc] at h
        cases h
        rfl

/-- In every store that any operations lead to, crawlers come to items. -/
theorem reach_crawlsItem {w : World} (h : Reach World.Init WorldStep w) (i : ℕ) :
    w.store.crawlsItem i = true := by
  obtain ⟨refs, ht⟩ := tracked_of_reach h
  obtain ⟨v, hv⟩ := ht.inv
  unfold Store.crawlsItem
  cases ht : w.store.crawlTarget i with
  | none => rfl
  | some p =>
    obtain ⟨it, u⟩ := p
    obtain ⟨hf, hy⟩ := crawlTarget_some ht
    obtain ⟨l, l', hq⟩ := List.append_of_mem (hv.crawler_mem hf)
    rcases List.eq_nil_or_concat' l with rfl | ⟨l, y, rfl⟩
    · -- the crawler is at the head of its queue
      have hcq : v.queue (w.store.heap.slabsClsid (.crawler i)) = .crawler i :: l' := by
        rw [(hv.crawler i hf).1]
        exact hq
      rw [(hv.queues.crawl_head hcq rfl).1] at hy
      cases hy
    · have hq' : v.queue i = l ++ y :: .crawler i :: l' := by
        rw [hq, List.append_assoc]
        rfl
      obtain ⟨s1, v1, hc, -⟩ := hv.crawlOver hf hq'
      rw [hc] at hy
      cases hy
      exact hv.alloc_isChunk (hv.items_alloc _ (hv.mem_items_of_before hq'))

/-! ## What an evaluation does -/

/-- The expiry of items and the clock are the same, and so are the counts of items that somebody refers
to. -/
structure CrawlKeeps (s t : Store) : Prop where
  exptime : t.heap.exptime = s.heap.exptime
  now : t.now = s.now
  refcount : ∀ x, s.heap.refcount x % 2 ^ 16 ≠ 1 → t.heap.refcount x = s.heap.refcount x

/-- What a crawler of queue `i` does when it has come to item `it`. -/
structure Evaluated (s t : Store) (i : ℕ) (it : Ptr) : Prop where
  keeps : CrawlKeeps s t
  itFlags : ∀ j, t.heap.itFlags (.crawler j) = s.heap.itFlags (.crawler j)
  ended : ∀ c, (t.crawlers.crawlerStats c).endTime = (s.crawlers.crawlerStats c).endTime ∧
    (t.crawlers.crawlerStats c).runComplete = (s.crawlers.crawlerStats c).runComplete
  histo : ∀ c, (t.crawlers.crawlerStats c).histo = if clearLru i = c ∧ s.countsIn it = true then
      Function.update (s.crawlers.crawlerStats c).histo ((s.heap.exptime it - s.now) / 60).toNat
        ((s.crawlers.crawlerStats c).histo ((s.heap.exptime it - s.now) / 60).toNat + 1)
    else (s.crawlers.crawlerStats c).histo
  counted : s.countsIn it = true → s.heap.refcount it % 2 ^ 16 = 1 ∧
    t.heap.refcount it = s.heap.refcount it + 2 ∧ s.now ≤ s.heap.exptime it

/-- The histogram and the end of the crawl are the same. -/
def CrawlerStats.Same (a b : CrawlerStats) : Prop :=
  b.endTime = a.endTime ∧ b.runComplete = a.runComplete ∧ b.histo = a.histo

theorem CrawlerStats.Same.trans {a b c : CrawlerStats} (h : a.Same b) (h' : b.Same c) : a.Same c :=
  ⟨h'.1.trans h.1, h'.2.1.trans h.2.1, h'.2.2.trans h.2.2⟩

theorem bumpCrawl_stats (s : Store) (id : ℕ) (f : CrawlerStats → CrawlerStats) (c : ℕ) :
    (s.bumpCrawl id f).crawlers.crawlerStats c =
      if id = c then f (s.crawlers.crawlerStats c) else s.crawlers.crawlerStats c := by
  split_ifs with e
  · subst e
    exact Function.update_self _ _ _
  · exact Function.update_of_ne (Ne.symm e) _ _

theorem bumpCrawl_same (s : Store) (id : ℕ) {f : CrawlerStats → CrawlerStats}
    (hf : ∀ cs : CrawlerStats, cs.Same (f cs)) (c : ℕ) :
    (s.crawlers.crawlerStats c).Same ((s.bumpCrawl id f).crawlers.crawlerStats c) := by
  rw [bumpCrawl_stats]
  split_ifs
  · exact hf _
  · exact ⟨rfl, rfl, rfl⟩

/-- An evaluation that counts nothing. -/
theorem Evaluated.quiet {s t : Store} {i : ℕ} {it : Ptr} (hn : s.countsIn it = false)
    (hk : CrawlKeeps s t) (hf : ∀ j, t.heap.itFlags (.crawler j) = s.heap.itFlags (.crawler j))
    (hc : ∀ c, (s.crawlers.crawlerStats c).Same (t.crawlers.crawlerStats c)) :
    Evaluated s t i it := by
  refine ⟨hk, hf, fun c => ⟨(hc c).1, (hc c).2.1⟩, fun c => ?_, fun e => by rw [hn] at e; cases e⟩
  rw [if_neg (by rw [hn]; simp)]
  exact (hc c).2.2

/-- A dead item is dropped. -/
theorem Evaluated.drop {s w : Store} {it : Ptr} (hit : it.isChunk = true)
    (hn : s.countsIn it = false) (h1 : s.heap.refcount it % 2 ^ 16 = 1) (hw : OnlyItem s w it)
    (i : ℕ) (hv : UInt32) :
    Evaluated s (((w.doItemUnlink it hv).doItemRemove it).bumpCrawl (clearLru i) fun c =>
      { c with reclaimed := c.reclaimed + 1 }) i it := by
  have ho := hw.trans (OnlyItem.drop w it hv)
  refine .quiet hn ⟨ho.exptime, ho.now, fun x hx => ?_⟩ (fun j => ?_) fun c => ?_
  · exact ho.refcount x (by rintro rfl; exact hx h1)
  · exact ho.itFlags _ (by rintro rfl; cases hit)
  · rw [← ho.crawlers]
    refine bumpCrawl_same _ _ ?_ c
    exact fun _ => ⟨rfl, rfl, rfl⟩

/-- The last statement of `ItemCrawlerEvaluate`, for queue `i`. -/
def Store.countExpiry (s : Store) (it : Ptr) (i : ℕ) : Store :=
  if s.heap.exptime it = 0 then s.bumpCrawl (clearLru i) fun c => { c with noexp := c.noexp + 1 }
  else if 3599 < s.heap.exptime it - s.now then
    s.bumpCrawl (clearLru i) fun c => { c with ttlHourplus := c.ttlHourplus + 1 }
  else
    s.bumpCrawl (clearLru i) fun c =>
      { c with
        histo := Function.update c.histo ((s.heap.exptime it - s.now) / 60).toNat
          (c.histo ((s.heap.exptime it - s.now) / 60).toNat + 1) }

/-- A live item, with its new references, is counted. -/
theorem Evaluated.count {s u : Store} {it : Ptr} (hl : s.findsLive it = true)
    (h1 : s.heap.refcount it % 2 ^ 16 = 1) (hr : u.heap.refcount it = s.heap.refcount it + 2)
    (hk : CrawlKeeps s u) (hf : ∀ j, u.heap.itFlags (.crawler j) = s.heap.itFlags (.crawler j))
    (hc : ∀ c, (s.crawlers.crawlerStats c).Same (u.crawlers.crawlerStats c)) (i : ℕ) :
    Evaluated s (u.countExpiry it i) i it := by
  have hx : u.heap.exptime it = s.heap.exptime it := by rw [hk.exptime]
  unfold Store.countExpiry
  rw [hx, hk.now]
  split_ifs with h0 hfar
  · refine .quiet (by simp [Store.countsIn, h0]) ⟨hk.exptime, hk.now, hk.refcount⟩ hf fun c =>
      (hc c).trans ?_
    refine bumpCrawl_same _ _ ?_ c
    exact fun _ => ⟨rfl, rfl, rfl⟩
  · refine .quiet (by simp [Store.countsIn, hfar]) ⟨hk.exptime, hk.now, hk.refcount⟩ hf fun c =>
      (hc c).trans ?_
    refine bumpCrawl_same _ _ ?_ c
    exact fun _ => ⟨rfl, rfl, rfl⟩
  · have hcount : s.countsIn it = true := by
      simp [Store.countsIn, hl, h0, UInt32.not_lt.mp hfar]
    have hlive : ¬ s.isReclaimable it := by
      simpa [Store.findsLive] using (Bool.and_eq_true_iff.mp hl).2
    refine ⟨⟨hk.exptime, hk.now, hk.refcount⟩, hf, fun c => ?_, fun c => ?_, fun _ => ⟨h1, hr, ?_⟩⟩
    · rw [bumpCrawl_stats]
      split_ifs <;> exact ⟨(hc c).1, (hc c).2.1⟩
    · rw [bumpCrawl_stats, ← (hc c).2.2]
      by_cases e : clearLru i = c
      · rw [if_pos e, if_pos ⟨e, hcount⟩]
      · rw [if_neg e, if_neg fun h => e h.1]
    · exact UInt32.not_lt.mp fun hlt => hlive (.inl ⟨h0, hlt⟩)

/-- A live item gets another reference and is counted. -/
theorem Evaluated.live {s w : Store} {it : Ptr} (hit : it.isChunk = true)
    (hl : s.findsLive it = true) (h1 : s.heap.refcount it % 2 ^ 16 = 1) (hw : OnlyItem s w it)
    (hr : w.heap.refcount it = s.heap.refcount it + 1) (i : ℕ) :
    Evaluated s (((w.bumpCrawl (clearLru i) fun c =>
      { c with seen := c.seen + 1 }).refcountIncr it).2.countExpiry it i) i it := by
  refine .count hl h1 ?_ ⟨?_, ?_, fun x hx => ?_⟩ (fun j => ?_) (fun c => ?_) i
  · exact (Function.update_self _ _ _).trans (congrArg (· + 1) hr)
  · exact hw.exptime
  · exact hw.now
  · have hne : x ≠ it := by rintro rfl; exact hx h1
    exact (Function.update_of_ne hne _ _).trans (hw.refcount x hne)
  · exact hw.itFlags _ (by rintro rfl; cases hit)
  · have hb : (w.crawlers.crawlerStats c).Same ((w.bumpCrawl (clearLru i) fun c =>
        { c with seen := c.seen + 1 }).crawlers.crawlerStats c) := by
      refine bumpCrawl_same _ _ ?_ c
      exact fun _ => ⟨rfl, rfl, rfl⟩
    rw [hw.crawlers] at hb
    exact hb

theorem Evaluated.unlock {s t : Store} {i : ℕ} {it : Ptr} (h : Evaluated s t i it) (l : ℕ) :
    Evaluated s (t.tryLockUnlock l) i it :=
  ⟨⟨h.keeps.exptime, h.keeps.now, h.keeps.refcount⟩, h.itFlags, h.ended, h.histo, h.counted⟩

/-- **What a crawler does** when it has come to an item. -/
theorem crawlItem_evaluated (s : Store) (i : ℕ) {it : Ptr} (hit : it.isChunk = true) :
    Evaluated s (s.crawlItem i it) i it := by
  unfold Store.crawlItem
  obtain ⟨e, ht⟩ | ⟨l, e, -, ht⟩ := tryLock_fresh s (s.hv it)
  · rw [ht]
    exact .quiet (by simp [Store.countsIn, Store.findsLive, ht]) ⟨rfl, rfl, fun _ _ => rfl⟩
      (fun _ => rfl) fun _ => ⟨rfl, rfl, rfl⟩
  · rw [ht]
    obtain ⟨u, hu⟩ : ∃ u : Store, u = { s with env := e, itemLocks := l :: s.itemLocks } := ⟨_, rfl⟩
    have hinc : (u.refcountIncr it).1 = (s.refcountIncr it).1 := by rw [hu]; rfl
    dsimp only
    rw [← hu]
    by_cases h2 : (u.refcountIncr it).1 = 2
    · have h1 : s.heap.refcount it % 2 ^ 16 = 1 := by
        rw [hinc] at h2
        simp only [Store.refcountIncr] at h2
        omega
      rw [if_neg (not_not.mpr h2)]
      refine Evaluated.unlock ?_ l
      have hw (st : ℕ → ItemStats) :
          OnlyItem s { (u.refcountIncr it).2 with itemStats := st } it := by
        rw [hu]
        exact ⟨rfl, rfl, fun y hy => Function.update_of_ne hy _ _, fun _ _ => rfl, fun _ _ => rfl, rfl⟩
      have hru : u.heap.refcount it = s.heap.refcount it := by rw [hu]
      obtain ⟨hdead, st, he⟩ | ⟨hlive, st, he⟩ :=
        Inv.itemEvaluate_cases (u.refcountIncr it).2 it (u.hv it) i
      · have hn : s.findsLive it = false := by
          have : s.isReclaimable it := by rw [hu] at hdead; exact hdead
          simp [Store.findsLive, this]
        simp only [Store.itemCrawlerEvaluate, he]
        exact .drop hit (by simp [Store.countsIn, hn]) h1 (hw st) i _
      · have hl : s.findsLive it = true := by
          have : ¬ s.isReclaimable it := by rw [hu] at hlive; exact hlive
          simp [Store.findsLive, ht, ← hinc, h2, this]
        simp only [Store.itemCrawlerEvaluate, he]
        refine .live hit hl h1 (hw st) ?_ i
        exact (Function.update_self _ _ _).trans (congrArg (· + 1) hru)
    · rw [if_pos h2, Inv.refcountIncr_decr, hu]
      have hn : s.findsLive it = false := by simp [Store.findsLive, ← hinc, h2]
      exact .quiet (by simp [Store.countsIn, hn]) ⟨rfl, rfl, fun _ _ => rfl⟩ (fun _ => rfl)
        fun _ => ⟨rfl, rfl, rfl⟩

/-! ## The histogram and the items in it -/

/-- The bucket of an item counted at a time. -/
def Store.bucket (s : Store) (e : Ptr × UInt32) : ℕ := ((s.heap.exptime e.1 - e.2) / 60).toNat

/-- **The invariant of a class**: an item is counted once, at a time at which it had not expired; the
histogram has no other items; and once no crawler of the class is at work, nothing was counted after the
end of the crawl. -/
structure Recrawl.Counts (r : Recrawl) (c : ℕ) : Prop where
  nodup : ((r.counted c).map Prod.fst).Nodup
  referenced : ∀ e ∈ r.counted c, r.store.heap.refcount e.1 % 2 ^ 16 ≠ 1
  dated : ∀ e ∈ r.counted c, e.2 ≤ r.store.now ∧ e.2 ≤ r.store.heap.exptime e.1
  histo : ∀ b, ((r.store.crawlers.crawlerStats c).histo b).toNat ≤
    (r.counted c).countP fun e => r.store.bucket e = b
  ended : (r.store.crawlers.crawlerStats c).runComplete = true →
    (r.store.crawlers.crawlerStats c).endTime ≤ r.store.now
  settled : (r.store.crawlers.crawlerStats c).runComplete = true → r.store.NotCrawled c →
    ∀ e ∈ r.counted c, e.2 ≤ (r.store.crawlers.crawlerStats c).endTime

namespace Recrawl.Counts

variable {r r' : Recrawl} {c : ℕ}

/-- A reset of the statistics. -/
theorem reset (hh : ∀ b, (r.store.crawlers.crawlerStats c).histo b = 0)
    (hr : (r.store.crawlers.crawlerStats c).runComplete = false) (hc : r.counted c = []) :
    r.Counts c := by
  refine ⟨?_, ?_, ?_, fun b => ?_, ?_, ?_⟩
  · rw [hc]; exact .nil
  · rw [hc]; exact fun _ h => absurd h List.not_mem_nil
  · rw [hc]; exact fun _ h => absurd h List.not_mem_nil
  · rw [hh]; exact Nat.zero_le _
  · rw [hr]; exact fun h => absurd h Bool.false_ne_true
  · rw [hr]; exact fun h => absurd h Bool.false_ne_true

/-- Nothing was counted, and the histogram is the same. -/
theorem keep (h : r.Counts c) (hc : r'.counted c = r.counted c)
    (hx : ∀ e ∈ r.counted c, r'.store.heap.exptime e.1 = r.store.heap.exptime e.1)
    (hr : ∀ e ∈ r.counted c, r'.store.heap.refcount e.1 % 2 ^ 16 ≠ 1)
    (hn : r.store.now ≤ r'.store.now)
    (hh : (r'.store.crawlers.crawlerStats c).histo = (r.store.crawlers.crawlerStats c).histo)
    (he : (r'.store.crawlers.crawlerStats c).runComplete = true →
      (r'.store.crawlers.crawlerStats c).endTime ≤ r'.store.now ∧ (r'.store.NotCrawled c →
        ∀ e ∈ r.counted c, e.2 ≤ (r'.store.crawlers.crawlerStats c).endTime)) : r'.Counts c where
  nodup := by rw [hc]; exact h.nodup
  referenced := by rw [hc]; exact hr
  dated e hm := by
    rw [hc] at hm
    obtain ⟨h1, h2⟩ := h.dated e hm
    exact ⟨UInt32.le_trans h1 hn, by rw [hx e hm]; exact h2⟩
  histo b := by
    rw [hc, hh]
    refine (h.histo b).trans_eq (List.countP_congr fun e hm => ?_)
    rw [Store.bucket, Store.bucket, hx e hm]
  ended hd := (he hd).1
  settled hd hi e hm := by
    rw [hc] at hm
    exact (he hd).2 hi e hm

/-- A crawler is done. -/
theorem ends (h : r.Counts c) (i : ℕ) {u : Store} (hu : Relinked r.store u)
    (hs : r'.store = u.endCrawl i) (hc : r'.counted = r.counted) : r'.Counts c := by
  obtain ⟨n, p, l, rem, rfl⟩ := hu
  have hx : r'.store.heap.exptime = r.store.heap.exptime := by rw [hs]; rfl
  have hr : r'.store.heap.refcount = r.store.heap.refcount := by rw [hs]; rfl
  have hn : r'.store.now = r.store.now := by rw [hs]; rfl
  have hst : r'.store.crawlers.crawlerStats c = if clearLru i = c then
      { r.store.crawlers.crawlerStats c with endTime := r.store.now, runComplete := true }
      else r.store.crawlers.crawlerStats c := by
    rw [hs, Store.endCrawl, bumpCrawl_stats]
    rfl
  refine h.keep (by rw [hc]) (fun e _ => by rw [hx]) (fun e hm => ?_) (by rw [hn]; exact UInt32.le_refl _)
    ?_ fun hd => ?_
  · rw [hr]
    exact h.referenced e hm
  · rw [hst]
    split_ifs <;> rfl
  · rw [hst] at hd ⊢
    rw [hn]
    split_ifs at hd ⊢ with e
    · exact ⟨UInt32.le_refl _, fun _ e hm => (h.dated e hm).1⟩
    · refine ⟨h.ended hd, fun hi => h.settled hd fun j hj hjc => ?_⟩
      have hne : Ptr.crawler j ≠ .crawler i := by
        rintro ⟨⟩
        exact e hjc
      have hfl : r'.store.flags (.crawler j) = r.store.flags (.crawler j) := by
        rw [hs]
        exact Function.update_of_ne hne _ _
      rw [← hfl]
      exact hi j hj hjc

/-- A crawler has come to an item and does not count it for the class. -/
theorem skips (h : r.Counts c) {i : ℕ} {u : Store} (hu : Relinked r.store u) {it : Ptr}
    (ev : Evaluated u r'.store i it) (hc : r'.counted c = r.counted c)
    (hn : ¬ (clearLru i = c ∧ u.countsIn it = true)) : r'.Counts c := by
  obtain ⟨n, p, l, rem, rfl⟩ := hu
  refine h.keep hc (fun e _ => congrFun ev.keeps.exptime e.1) (fun e hm => ?_) ?_ ?_ fun hd => ?_
  · rw [ev.keeps.refcount e.1 (h.referenced e hm)]
    exact h.referenced e hm
  · rw [ev.keeps.now]
    exact UInt32.le_refl _
  · rw [ev.histo, if_neg hn]
  · rw [(ev.ended c).2] at hd
    rw [(ev.ended c).1, ev.keeps.now]
    refine ⟨h.ended hd, fun hi => h.settled hd fun j hj hjc => ?_⟩
    have := hi j hj hjc
    rw [Store.flags, ev.itFlags] at this
    exact this

/-- A crawler has counted an item. -/
theorem counts (h : r.Counts c) {i : ℕ} (hi : i < largestId) (hic : clearLru i = c)
    (hon : r.store.flags (.crawler i) = .one) {u : Store} (hu : Relinked r.store u) {it : Ptr}
    (ev : Evaluated u r'.store i it) (hin : u.countsIn it = true)
    (hc : r'.counted c = (it, r.store.now) :: r.counted c) : r'.Counts c := by
  obtain ⟨n, p, l, rem, rfl⟩ := hu
  obtain ⟨h1, h3, hle⟩ := ev.counted hin
  have hx (e : Ptr × UInt32) : r'.store.bucket e = r.store.bucket e := by
    rw [Store.bucket, ev.keeps.exptime]
    rfl
  refine ⟨?_, ?_, ?_, fun b => ?_, fun hd => ?_, fun _ hoff => ?_⟩
  · rw [hc, List.map_cons, List.nodup_cons]
    refine ⟨fun hm => ?_, h.nodup⟩
    -- the crawler does not come to look at a counted item again
    obtain ⟨e, he, rfl⟩ := List.mem_map.mp hm
    exact h.referenced e he h1
  · rw [hc]
    rintro e hm
    rcases List.mem_cons.mp hm with rfl | hm
    · rw [h3]
      omega
    · rw [ev.keeps.refcount e.1 (h.referenced e hm)]
      exact h.referenced e hm
  · rw [hc, ev.keeps.now, ev.keeps.exptime]
    rintro e hm
    rcases List.mem_cons.mp hm with rfl | hm
    · exact ⟨UInt32.le_refl _, hle⟩
    · exact h.dated e hm
  · have hb := h.histo b
    have hnew : r.store.bucket (it, r.store.now) = ((r.store.heap.exptime it - r.store.now) / 60).toNat :=
      rfl
    rw [hc, List.countP_cons, ev.histo, if_pos ⟨hic, hin⟩]
    simp only [hx, hnew]
    by_cases e : b = ((r.store.heap.exptime it - r.store.now) / 60).toNat
    · subst e
      rw [Function.update_self, if_pos (decide_eq_true rfl), UInt64.toNat_add]
      exact (Nat.mod_le _ _).trans (Nat.add_le_add_right hb 1)
    · rw [Function.update_of_ne e]
      exact hb.trans (Nat.le_add_right _ _)
  · rw [(ev.ended c).2] at hd
    rw [(ev.ended c).1, ev.keeps.now]
    exact h.ended hd
  · refine absurd ?_ (hoff i hi hic)
    rw [Store.flags, ev.itFlags]
    exact hon

/-- **An iteration.** -/
theorem iterate (h : r.Counts c) {i : ℕ} (hi : i < largestId) (hit : r.store.crawlsItem i = true) :
    (r.iterate i).Counts c := by
  obtain ⟨-, ht, he⟩ | ⟨hon, u, hu, ⟨ht, he⟩ | ⟨it, ht, he⟩⟩ := crawlStep_cases r.store i
  · have hn : r.store.crawlCounts i = none := by rw [Store.crawlCounts, ht]
    have e : r.iterate i = r := by rw [Recrawl.iterate, he, hn]
    rw [e]
    exact h
  · have hn : r.store.crawlCounts i = none := by rw [Store.crawlCounts, ht]
    exact h.ends i hu he (by rw [Recrawl.iterate, hn])
  · rw [Store.crawlsItem, ht] at hit
    have hcc : r.store.crawlCounts i = if u.countsIn it then some it else none := by
      rw [Store.crawlCounts, ht]
    have ev : Evaluated u (r.iterate i).store i it := by
      rw [show (r.iterate i).store = _ from he]
      exact crawlItem_evaluated u i hit
    by_cases hin : clearLru i = c ∧ u.countsIn it = true
    · refine h.counts hi hin.1 hon hu ev hin.2 ?_
      rw [hin.2, if_pos rfl] at hcc
      rw [Recrawl.iterate, hcc, hin.1]
      exact Function.update_self _ _ _
    · refine h.skips hu ev ?_ hin
      rw [Recrawl.iterate, hcc]
      split_ifs with hu'
      · exact Function.update_of_ne (fun e => hin ⟨e.symm, hu'⟩) _ _
      · rfl

end Recrawl.Counts

/-! ### Starts -/

/-- Crawlers may have been started, and nothing else was done. -/
structure Started (s t : Store) : Prop where
  exptime : t.heap.exptime = s.heap.exptime
  refcount : t.heap.refcount = s.heap.refcount
  now : t.now = s.now
  crawlerStats : t.crawlers.crawlerStats = s.crawlers.crawlerStats
  flags : ∀ j, t.flags (.crawler j) ≠ .one → s.flags (.crawler j) ≠ .one

theorem Started.linkCrawler (s : Store) (sid : ℕ) (remaining : UInt32) :
    Started s (s.linkCrawler sid remaining) := by
  refine ⟨rfl, rfl, rfl, rfl, fun j hj => ?_⟩
  by_cases e : j = sid
  · subst e
    exact absurd (Function.update_self _ _ _) hj
  · have hne : Ptr.crawler j ≠ .crawler sid := fun h => e (Ptr.crawler.inj h)
    rwa [Store.flags, show (s.linkCrawler sid remaining).heap.itFlags (.crawler j) = _ from
      Function.update_of_ne hne _ _] at hj

theorem Started.startQueues (remaining : UInt32) (sids : List ℕ) : ∀ (n : ℕ) (s : Store),
    Started s (sids.foldl (Store.startQueue remaining) (n, s)).2 := by
  induction sids with
  | nil => exact fun _ _ => ⟨rfl, rfl, rfl, rfl, fun _ h => h⟩
  | cons sid sids ih =>
    intro n s
    rw [List.foldl_cons, Store.startQueue]
    split_ifs
    · exact ih n s
    · have h1 := Started.linkCrawler s sid remaining
      have h2 := ih (n + 1) (s.linkCrawler sid remaining)
      exact ⟨h2.exptime.trans h1.exptime, h2.refcount.trans h1.refcount, h2.now.trans h1.now,
        h2.crawlerStats.trans h1.crawlerStats, fun j hj => h1.flags j (h2.flags j hj)⟩

/-- The statistics are reset if a crawler was started. -/
theorem doLRUCrawlerStart_cases (s : Store) (id : ℕ) (remaining : UInt32) : ∃ n t, Started s t ∧
    (n = 0 ∧ s.doLRUCrawlerStart id remaining = (n, t) ∨
      n ≠ 0 ∧ ∃ st, s.doLRUCrawlerStart id remaining = (n, { t with stats := st }.bumpCrawl id
        fun _ => { CrawlerStats.zero with startTime := t.now })) := by
  refine ⟨((Store.tocrawl id).foldl (Store.startQueue remaining) (0, s)).1, _,
    .startQueues remaining (Store.tocrawl id) 0 s, ?_⟩
  unfold Store.doLRUCrawlerStart
  dsimp only
  split_ifs with h0
  · exact .inl ⟨h0, rfl⟩
  · exact .inr ⟨h0, _, rfl⟩

namespace Recrawl.Counts

variable {r r' : Recrawl} {c : ℕ}

/-- Crawlers were started, and the statistics of the class were not reset. -/
theorem started (h : r.Counts c) {t : Store} (hs : Started r.store t)
    (hh : r'.store.heap = t.heap) (hn : r'.store.now = t.now)
    (hst : r'.store.crawlers.crawlerStats c = t.crawlers.crawlerStats c)
    (hc : r'.counted c = r.counted c) : r'.Counts c := by
  rw [hs.now] at hn
  rw [hs.crawlerStats] at hst
  refine h.keep hc (fun e _ => by rw [hh, hs.exptime]) (fun e hm => ?_) ?_ (by rw [hst]) fun hd => ?_
  · rw [hh, hs.refcount]
    exact h.referenced e hm
  · rw [hn]
    exact UInt32.le_refl _
  · rw [hst] at hd ⊢
    rw [hn]
    refine ⟨h.ended hd, fun hi => h.settled hd fun j hj hjc => hs.flags j ?_⟩
    have := hi j hj hjc
    rwa [Store.flags, hh] at this

/-- **A start** resets the statistics of its class. -/
theorem start (h : r.Counts c) (id : ℕ) (remaining : UInt32) : (r.start id remaining).Counts c := by
  obtain ⟨n, t, hq, ⟨h0, he⟩ | ⟨h0, st, he⟩⟩ := doLRUCrawlerStart_cases r.store id remaining
  · refine h.started hq ?_ ?_ ?_ ?_
    · rw [Recrawl.start, he]
    · rw [Recrawl.start, he]
    · rw [Recrawl.start, he]
    · rw [Recrawl.start, he, if_pos h0]
  · by_cases hid : id = c
    · refine .reset (fun b => ?_) ?_ ?_
      · rw [Recrawl.start, he, bumpCrawl_stats, if_pos hid]
        rfl
      · rw [Recrawl.start, he, bumpCrawl_stats, if_pos hid]
        rfl
      · rw [Recrawl.start, he, if_neg h0, hid]
        exact Function.update_self _ _ _
    · refine h.started hq ?_ ?_ ?_ ?_
      · rw [Recrawl.start, he]
        rfl
      · rw [Recrawl.start, he]
        rfl
      · rw [Recrawl.start, he, bumpCrawl_stats, if_neg hid]
      · rw [Recrawl.start, he, if_neg h0]
        exact Function.update_of_ne (Ne.symm hid) _ _

theorem kick (h : r.Counts c) (id : ℕ) (got : Bool) : (r.kick id got).Counts c := by
  unfold Recrawl.kick
  have hs := h.start id 0
  split_ifs
  · exact ⟨hs.nodup, hs.referenced, hs.dated, hs.histo, hs.ended, hs.settled⟩
  · exact hs
  · exact h

theorem check (h : r.Counts c) (id : ℕ) : (r.check id).Counts c := by
  unfold Recrawl.check
  dsimp only
  split_ifs <;> exact ⟨h.nodup, h.referenced, h.dated, h.histo, h.ended, h.settled⟩

/-- **Every step keeps the invariant.** -/
theorem exec (h : r.Counts c) {call : RecrawlCall} (hok : call.Ok r) : (r.exec call).Counts c := by
  cases call with
  | iterate i => exact h.iterate hok.1 hok.2
  | start id remaining => exact h.start id remaining
  | tick now =>
    refine h.keep rfl (fun _ _ => rfl) h.referenced hok rfl fun hd => ?_
    exact ⟨UInt32.le_trans (h.ended hd) hok, h.settled hd⟩
  | kick id got => exact h.kick id got
  | check id => exact h.check id
  | other s =>
    refine h.keep rfl (hok.exptime c) (hok.refcount c) ?_ ?_ fun hd => ?_
    · rw [show (r.exec (.other s)).store.now = r.store.now from hok.now]
      exact UInt32.le_refl _
    · rw [show (r.exec (.other s)).store.crawlers.crawlerStats = _ from hok.crawlerStats]
    · rw [show (r.exec (.other s)).store.crawlers.crawlerStats = _ from hok.crawlerStats] at hd ⊢
      rw [show (r.exec (.other s)).store.now = r.store.now from hok.now]
      refine ⟨h.ended hd, fun hi => h.settled hd fun j hj hjc => ?_⟩
      rw [← hok.crawlers j]
      exact hi j hj hjc

end Recrawl.Counts

theorem reach_counts {r : Recrawl} (h : Reach Recrawl.Init RecrawlStep r) (c : ℕ) : r.Counts c := by
  refine h.invariant (I := fun r => r.Counts c) (fun r h0 => ?_) ?_
  · exact .reset (h0.1 c) (h0.2.1 c) (h0.2.2 c)
  · rintro r _ hr ⟨call, hok, rfl⟩
    exact hr.exec hok

/-! ## The estimate -/

theorem countP_add_le {α : Type} {p q t : α → Bool} (hp : ∀ a, p a = true → t a = true)
    (hq : ∀ a, q a = true → t a = true) (hpq : ∀ a, p a = true → q a = false) (l : List α) :
    l.countP p + l.countP q ≤ l.countP t := by
  induction l with
  | nil => exact le_rfl
  | cons a l ih =>
    have h1 := hp a
    have h2 := hq a
    have h3 := hpq a
    simp only [List.countP_cons]
    split_ifs <;> simp_all <;> omega

/-- The loop adds up buckets that are over. -/
theorem availableFrom_le {α : Type} {histo : ℕ → UInt64} {l : List α} {f : α → ℕ}
    (hh : ∀ b, (histo b).toNat ≤ l.countP fun e => f e = b) (sinceRun : UInt32) :
    ∀ (n x : ℕ) (available : UInt64),
      (Store.availableFrom histo sinceRun n x available).toNat ≤ available.toNat +
        l.countP fun e => x ≤ f e ∧ f e * 60 + 60 ≤ sinceRun.toNat := by
  intro n
  induction n with
  | zero => exact fun x available => Nat.le_add_right _ _
  | succ n ih =>
    intro x available
    rw [Store.availableFrom]
    split_ifs with hlt
    · exact Nat.le_add_right _ _
    · have h1 : (available + histo x).toNat ≤ available.toNat + (histo x).toNat := by
        rw [UInt64.toNat_add]
        exact Nat.mod_le _ _
      have h2 : (l.countP fun e => f e = x) +
          (l.countP fun e => x + 1 ≤ f e ∧ f e * 60 + 60 ≤ sinceRun.toNat) ≤
          l.countP fun e => x ≤ f e ∧ f e * 60 + 60 ≤ sinceRun.toNat := by
        refine countP_add_le (fun e he => ?_) (fun e he => ?_) (fun e he => ?_) l
        all_goals
          simp only [decide_eq_true_eq, decide_eq_false_iff_not] at he ⊢
          omega
      have h3 := ih (x + 1) (available + histo x)
      have h4 := hh x
      omega

/-- An item of a bucket that is over has expired, if it was counted before the end of the crawl. -/
theorem expired_of_bucket {exptime counted ended now : UInt32} (h1 : counted ≤ exptime)
    (h2 : counted ≤ ended) (h3 : ended ≤ now)
    (h : ((exptime - counted) / 60).toNat * 60 + 60 ≤ (now - ended).toNat) : exptime < now := by
  rw [UInt32.le_iff_toNat_le] at h1 h2 h3
  rw [UInt32.lt_iff_toNat_lt]
  rw [UInt32.toNat_div, UInt32.toNat_sub_of_le _ _ (UInt32.le_iff_toNat_le.mpr h1),
    UInt32.toNat_sub_of_le _ _ (UInt32.le_iff_toNat_le.mpr h3),
    show (60 : UInt32).toNat = 60 from rfl] at h
  omega

/-- The small store with an item in the `COLD` queue of class 1 that expires at the time 209, and another
one in its `HOT` queue. -/
def twoQueues : Recrawl where
  store := (smallWorld.run [.alloc (.byte 97) 0 209 3 0, .store (.chunk 4192) .set,
    .remove (.chunk 4192), .maintainer true, .alloc (.byte 98) 0 0 3 0, .store (.chunk 4096) .set,
    .remove (.chunk 4096)]).store
  lastCrawls _ := 0
  nextCrawlWait _ := 0
  counted _ := []

theorem twoQueues_init : twoQueues.Init := ⟨fun _ _ => rfl, fun _ => rfl, fun _ => rfl⟩

/-- The calls may happen, one after the other. -/
def Recrawl.Plays : Recrawl → List RecrawlCall → Prop
  | _, [] => True
  | r, call :: calls => call.Ok r ∧ Plays (r.exec call) calls

theorem RecrawlCall.Ok.clock {r : Recrawl} {now : UInt32} (h : r.store.now ≤ now) :
    (RecrawlCall.tick now).Ok r := h

theorem reach_recrawls (calls : List RecrawlCall) {r : Recrawl} (hr : Reach Recrawl.Init RecrawlStep r)
    (h : r.Plays calls) : Reach Recrawl.Init RecrawlStep (r.run calls) := by
  induction calls generalizing r with
  | nil => exact hr
  | cons call calls ih => exact ih (hr.next ⟨call, h.1, rfl⟩) h.2

/-- The check kicks off a crawl at the time 100. The crawler of the `HOT` queue comes to its end, and at
the time 150 that of the `COLD` queue counts its item. -/
def halfCrawled : List RecrawlCall :=
  [.tick 100, .kick 1 true, .iterate 1, .iterate 1, .tick 150, .iterate 129]

theorem halfCrawled_reach : Reach Recrawl.Init RecrawlStep (twoQueues.run halfCrawled) := by
  refine reach_recrawls halfCrawled (.start twoQueues_init) ⟨.clock ?_, trivial, ⟨?_, ?_⟩, ⟨?_, ?_⟩,
    .clock ?_, ⟨?_, ?_⟩, trivial⟩
  all_goals decide +kernel

end Mdb
