import Mdb.Store.Background
import Mdb.Store.Neutral

/-!
# What the crawler leaves behind

An iteration of the crawl loop takes a reference to the item it steps over, for busy items gives it back
at once, for dead ones after it has unlinked them. For live ones `ItemCrawlerEvaluate` takes another one
instead.

* `crawlTarget`, `findsLive`, `crawlsLive`: the item an iteration comes to, and whether it evaluates it
  and finds it alive; `crawlStep_cases`: what an iteration can do;
* `drop_frees`: an item with no reference but the crawler's goes to its freelist;
* **`crawl_neutral`**: in every sequence of iterations that evaluate no live item, linked items keep
  their counts, and those reclaimed have none left and are free; **`crawl_leaks`**: a live item is left
  with two references more.
-/

namespace Mdb

open Run

namespace Store

variable (s : Store)

/-- The item that the iteration for queue `i` is going to lock, and the store then. -/
def crawlTarget (i : ℕ) : Option (Ptr × Store) :=
  if s.flags (.crawler i) ≠ .one then none
  else match s.crawlerCrawlQ (.crawler i) with
    | (none, _) => none
    | (some it, s) =>
      let n := s.crawlers.remaining i
      let s := { s with crawlers := { s.crawlers with
        remaining := Function.update s.crawlers.remaining i (if n = 0 then 0 else n - 1) } }
      if n ≠ 0 ∧ n - 1 < 1 then none else some (it, s)

/-- The crawler gets the lock of item `it`, nobody else refers to it, and it is alive. -/
def findsLive (it : Ptr) : Bool :=
  (s.tryLock (s.hv it)).1.isSome && (s.refcountIncr it).1 = 2 && !s.isReclaimable it

/-- The iteration for queue `i` evaluates a live item. -/
def crawlsLive (i : ℕ) : Bool :=
  match s.crawlTarget i with
  | none => false
  | some (it, u) => u.findsLive it

/-- The slab classes of linked items exist. -/
def Classed : Prop :=
  ∀ x, (s.flags x).linked = true → x.isChunk = true →
    s.slabs.InRange (clearLru (s.heap.slabsClsid x))

end Store

/-! ## Freeing -/

theorem freeItem_frees {s : Store} {it : Ptr}
    (hr : s.slabs.InRange (clearLru (s.heap.slabsClsid it))) :
    ((s.freeItem it).flags it).slabbed = true ∧
      ((s.freeItem it).slabs.slabclass (clearLru (s.heap.slabsClsid it))).slots = some it := by
  unfold Store.freeItem Store.doSlabsFree
  rw [if_pos (show Slabs.InRange _ _ from hr)]
  simp [Store.setClass, Store.setFlags, Store.setClsid, Store.flags]

/-- The last reference goes: the item is the first one of its freelist. -/
theorem doItemRemove_frees {s : Store} {it : Ptr} (hn : s.heap.refcount it % 2 ^ 16 = 1)
    (hr : s.slabs.InRange (clearLru (s.heap.slabsClsid it))) :
    (s.doItemRemove it).heap.refcount it % 2 ^ 16 = 0 ∧
      ((s.doItemRemove it).flags it).slabbed = true ∧
      ((s.doItemRemove it).slabs.slabclass (clearLru (s.heap.slabsClsid it))).slots = some it := by
  have hz : (s.refcountDecr it).1 = 0 := by
    have h0 : s.heap.refcount it ≠ 0 := fun e => by rw [e] at hn; cases hn
    simp only [Store.refcountDecr, if_neg h0]
    omega
  have hrc : (s.doItemRemove it).heap.refcount it % 2 ^ 16 = 0 := by
    have : (s.doItemRemove it).heap.refcount it = refDecr (s.heap.refcount it) := by
      have := congrArg Prod.fst (congrFun (s.doItemRemove_tally it) it)
      rwa [Function.update_self] at this
    rw [this]
    exact hz
  refine ⟨hrc, ?_⟩
  rw [Store.doItemRemove, if_pos hz]
  exact freeItem_frees (s := (s.refcountDecr it).2) hr

/-- **An item with no reference but one** besides its link is freed when it is dropped. -/
theorem drop_frees {s : Store} {it : Ptr} (hl : (s.flags it).linked = true)
    (hn : s.heap.refcount it % 2 ^ 16 = 2)
    (hr : s.slabs.InRange (clearLru (s.heap.slabsClsid it))) (hv : UInt32) :
    ((s.doItemUnlink it hv).doItemRemove it).heap.refcount it % 2 ^ 16 = 0 ∧
      (((s.doItemUnlink it hv).doItemRemove it).flags it).slabbed = true ∧
      (((s.doItemUnlink it hv).doItemRemove it).slabs.slabclass
        (clearLru (s.heap.slabsClsid it))).slots = some it := by
  obtain ⟨hc, hs, hrc⟩ := Inv.unlinkCore_clsid s it hv
  have h0 : s.heap.refcount it ≠ 0 := fun e => by rw [e] at hn; cases hn
  -- the reference of the link is not the last one
  have he : s.doItemUnlink it hv = (s.unlinkCore it hv).setRefcount it (s.heap.refcount it - 1) := by
    have hne : ¬ ((s.unlinkCore it hv).refcountDecr it).1 = 0 := by
      simp only [Store.refcountDecr, hrc, if_neg h0]
      omega
    rw [Store.doItemUnlink, if_pos hl, Store.doItemRemove, if_neg hne]
    simp only [Store.refcountDecr, hrc, if_neg h0]
  have hrc' : (s.doItemUnlink it hv).heap.refcount it = s.heap.refcount it - 1 := by
    rw [he]
    exact Function.update_self _ _ _
  have hc' : (s.doItemUnlink it hv).heap.slabsClsid = s.heap.slabsClsid := by rw [he]; exact hc
  have hs' : (s.doItemUnlink it hv).slabs = s.slabs := by rw [he]; exact hs
  rw [← hc', ← hs'] at hr
  rw [← hc']
  exact doItemRemove_frees (by rw [hrc']; omega) hr

/-! ## One iteration -/

/-- Items have the same counts, link bits and classes. -/
structure ItemsKept (s t : Store) : Prop where
  tally : ∀ x, x.isChunk = true → t.tally x = s.tally x
  clsid : ∀ x, x.isChunk = true → t.heap.slabsClsid x = s.heap.slabsClsid x
  slabs : t.slabs = s.slabs

theorem ItemsKept.refl (s : Store) : ItemsKept s s := ⟨fun _ _ => rfl, fun _ _ => rfl, rfl⟩

theorem ItemsKept.trans {s t u : Store} (h : ItemsKept s t) (h' : ItemsKept t u) : ItemsKept s u :=
  ⟨fun x hx => (h'.tally x hx).trans (h.tally x hx), fun x hx => (h'.clsid x hx).trans (h.clsid x hx),
    h'.slabs.trans h.slabs⟩

/-- Only links, queue ends and what is left to crawl differ. -/
def Relinked (s u : Store) : Prop := ∃ n p l r, u =
  { s with heap := { s.heap with next := n, prev := p }, lru := l,
           crawlers := { s.crawlers with remaining := r } }

theorem Relinked.itemsKept {s u : Store} (h : Relinked s u) : ItemsKept s u := by
  obtain ⟨n, p, l, r, rfl⟩ := h
  exact ⟨fun _ _ => rfl, fun _ _ => rfl, rfl⟩

theorem endCrawl_same (s : Store) (i : ℕ) : ItemsKept s (s.endCrawl i) := by
  refine ⟨fun x hx => ?_, fun _ _ => rfl, rfl⟩
  have hne : x ≠ .crawler i := by rintro rfl; cases hx
  simp [Store.endCrawl, Store.tally, Store.bumpCrawl, Store.doItemUnlinkQ, Store.setFlags,
    Function.update_of_ne hne]

/-- **The three ways of an iteration**: there is no crawler, it has come to its end, or it has come to
an item. -/
theorem crawlStep_cases (s : Store) (i : ℕ) :
    (s.flags (.crawler i) ≠ .one ∧ s.crawlTarget i = none ∧ s.crawlStep i = s) ∨
      s.flags (.crawler i) = .one ∧ ∃ u, Relinked s u ∧
        ((s.crawlTarget i = none ∧ s.crawlStep i = u.endCrawl i) ∨
          ∃ it, s.crawlTarget i = some (it, u) ∧ s.crawlStep i = u.crawlItem i it) := by
  unfold Store.crawlTarget Store.crawlStep
  by_cases hf : s.flags (.crawler i) ≠ .one
  · exact .inl ⟨hf, if_pos hf, if_pos hf⟩
  · refine .inr ⟨not_not.mp hf, ?_⟩
    rw [if_neg hf, if_neg hf]
    obtain ⟨n, p, l, hq⟩ := Inv.crawlerCrawlQ_frame s (.crawler i)
    generalize s.crawlerCrawlQ (.crawler i) = r at hq ⊢
    obtain ⟨_ | it, u⟩ := r <;> obtain rfl : u = _ := hq
    · exact ⟨_, ⟨n, p, l, s.crawlers.remaining, rfl⟩, .inl ⟨rfl, rfl⟩⟩
    · refine ⟨_, ⟨n, p, l, Function.update s.crawlers.remaining i
        (if s.crawlers.remaining i = 0 then 0 else s.crawlers.remaining i - 1), rfl⟩, ?_⟩
      by_cases hc : s.crawlers.remaining i ≠ 0 ∧ s.crawlers.remaining i - 1 < 1
      · exact .inl ⟨if_pos hc, if_pos hc⟩
      · exact .inr ⟨it, if_neg hc, if_neg hc⟩

/-- **What an iteration may do** to items: an item still linked has its count and its class, and an item
that is no longer linked has none left and is the first one of its class's freelist. -/
structure CrawlNeutral (s t : Store) : Prop where
  linked : ∀ x, x.isChunk = true → (t.flags x).linked = true →
    t.heap.refcount x = s.heap.refcount x
  clsid : ∀ x, x.isChunk = true → (t.flags x).linked = true →
    (s.flags x).linked = true ∧ t.heap.slabsClsid x = s.heap.slabsClsid x
  powerLargest : t.slabs.powerLargest = s.slabs.powerLargest
  reclaimed : ∀ x, x.isChunk = true → (s.flags x).linked = true → (t.flags x).linked = false →
    t.heap.refcount x % 2 ^ 16 = 0 ∧ (t.flags x).slabbed = true ∧
      (t.slabs.slabclass (clearLru (s.heap.slabsClsid x))).slots = some x

theorem ItemsKept.linked {s t : Store} (h : ItemsKept s t) {x : Ptr} (hx : x.isChunk = true) :
    (t.flags x).linked = (s.flags x).linked := congrArg Prod.snd (h.tally x hx)

theorem ItemsKept.crawlNeutral {s t : Store} (h : ItemsKept s t) : CrawlNeutral s t where
  linked x hx _ := congrArg Prod.fst (h.tally x hx)
  clsid x hx hl := ⟨(h.linked hx).symm.trans hl, h.clsid x hx⟩
  powerLargest := by rw [h.slabs]
  reclaimed x hx hl hl' := by
    rw [h.linked hx, hl] at hl'
    cases hl'

theorem CrawlNeutral.of_same {s t u : Store} (h : ItemsKept s t) (h' : CrawlNeutral t u) :
    CrawlNeutral s u where
  linked x hx hl := (h'.linked x hx hl).trans (congrArg Prod.fst (h.tally x hx))
  clsid x hx hl := by
    obtain ⟨h1, h2⟩ := h'.clsid x hx hl
    exact ⟨(h.linked hx).symm.trans h1, h2.trans (h.clsid x hx)⟩
  powerLargest := by rw [h'.powerLargest, h.slabs]
  reclaimed x hx hl hl' := by
    rw [← h.clsid x hx]
    exact h'.reclaimed x hx ((h.linked hx).trans hl) hl'

theorem CrawlNeutral.classed {s t : Store} (h : CrawlNeutral s t) (hs : s.Classed) : t.Classed := by
  intro x hl hx
  obtain ⟨hl', hc⟩ := h.clsid x hx hl
  rw [hc, Slabs.InRange, h.powerLargest]
  exact hs x hl' hx

/-- Nothing has changed of the expiry of items, the clock, the crawlers, and the counts, flags and
classes of other items. -/
structure OnlyItem (s t : Store) (it : Ptr) : Prop where
  exptime : t.heap.exptime = s.heap.exptime
  now : t.now = s.now
  refcount : ∀ y, y ≠ it → t.heap.refcount y = s.heap.refcount y
  itFlags : ∀ y, y ≠ it → t.heap.itFlags y = s.heap.itFlags y
  clsid : ∀ y, y ≠ it → t.heap.slabsClsid y = s.heap.slabsClsid y
  crawlers : t.crawlers = s.crawlers

namespace OnlyItem

variable {s t u : Store} {it : Ptr}

theorem trans (h : OnlyItem s t it) (h' : OnlyItem t u it) : OnlyItem s u it where
  exptime := h'.exptime.trans h.exptime
  now := h'.now.trans h.now
  refcount y hy := (h'.refcount y hy).trans (h.refcount y hy)
  itFlags y hy := (h'.itFlags y hy).trans (h.itFlags y hy)
  clsid y hy := (h'.clsid y hy).trans (h.clsid y hy)
  crawlers := h'.crawlers.trans h.crawlers

theorem freeItem (s : Store) (it : Ptr) : OnlyItem s (s.freeItem it) it := by
  unfold Store.freeItem Store.doSlabsFree
  split_ifs
  · exact ⟨rfl, rfl, fun _ _ => rfl, fun y hy => Function.update_of_ne hy _ _,
      fun y hy => Function.update_of_ne hy _ _, rfl⟩
  · exact ⟨rfl, rfl, fun _ _ => rfl, fun _ _ => rfl, fun _ _ => rfl, rfl⟩

theorem doItemRemove (s : Store) (it : Ptr) : OnlyItem s (s.doItemRemove it) it := by
  have h : OnlyItem s (s.refcountDecr it).2 it :=
    ⟨rfl, rfl, fun y hy => Function.update_of_ne hy _ _, fun _ _ => rfl, fun _ _ => rfl, rfl⟩
  unfold Store.doItemRemove
  split_ifs
  · exact h.trans (freeItem _ it)
  · exact h

theorem doItemUnlink (s : Store) (it : Ptr) (hv : UInt32) :
    OnlyItem s (s.doItemUnlink it hv) it := by
  unfold Store.doItemUnlink
  split_ifs
  · refine trans ?_ (doItemRemove _ it)
    obtain ⟨a, ha, -⟩ := (s.markUnlinked it).assocDelete_frame (s.heap.key it) hv
    rw [Store.unlinkCore, ha]
    exact ⟨rfl, rfl, fun _ _ => rfl, fun y hy => Function.update_of_ne hy _ _, fun _ _ => rfl, rfl⟩
  · exact ⟨rfl, rfl, fun _ _ => rfl, fun _ _ => rfl, fun _ _ => rfl, rfl⟩

/-- An item is dropped. -/
theorem drop (s : Store) (it : Ptr) (hv : UInt32) :
    OnlyItem s ((s.doItemUnlink it hv).doItemRemove it) it :=
  (doItemUnlink s it hv).trans (doItemRemove _ it)

end OnlyItem

theorem drop_unlinked (s : Store) (it : Ptr) (hv : UInt32) :
    (((s.doItemUnlink it hv).doItemRemove it).flags it).linked = false := by
  have h : (((s.doItemUnlink it hv).doItemRemove it).tally it).2 = false := by
    rw [Store.doItemRemove_tally, Function.update_self, Store.doItemUnlink_tally]
    split_ifs with hl
    · simp
    · simpa using hl
  exact h

/-- A dead item with no reference but the crawler's is dropped. -/
theorem Holds.crawlDrop {s t : Store} {it : Ptr} {lock : ℕ} (h : Holds s t it lock) (hs : s.Classed)
    (hc : t.heap.slabsClsid = s.heap.slabsClsid) (hsl : t.slabs = s.slabs)
    (hn : t.heap.refcount it % 2 ^ 16 = 2) (hv : UInt32) :
    CrawlNeutral s ((t.doItemUnlink it hv).doItemRemove it) := by
  have hgo := (h.drop hv).neutral (.nil _)
  have hne (x : Ptr) (hx : x ≠ it) :
      (((t.doItemUnlink it hv).doItemRemove it).flags x).linked = (s.flags x).linked := by
    have e : t.tally x = s.tally x := by rw [h.tally, Function.update_of_ne hx]
    rw [Store.flags, (OnlyItem.drop t it hv).itFlags x hx]
    exact congrArg Prod.snd e
  refine ⟨fun x _ hx => hgo.linked x hx, fun x _ hx => ?_, ?_, fun x hx hl hl' => ?_⟩
  · have hxi : x ≠ it := by
      rintro rfl
      rw [drop_unlinked] at hx
      cases hx
    exact ⟨(hne x hxi).symm.trans hx, by rw [(OnlyItem.drop t it hv).clsid x hxi, hc]⟩
  · rw [(((SameTable.refl t).doItemUnlink it hv).doItemRemove it).powerLargest, hsl]
  obtain rfl : x = it := by
    by_contra hxi
    rw [hne x hxi, hl] at hl'
    cases hl'
  have hlt : (t.flags x).linked = true := by
    have := congrArg Prod.snd (congrFun h.tally x)
    rw [Function.update_self] at this
    exact this.trans hl
  rw [← hc]
  exact drop_frees hlt hn (by rw [hc, hsl]; exact hs x hl hx) hv

/-- The item an iteration has come to is locked, and looked at. -/
theorem crawlItem_neutral {s : Store} (hs : s.Classed) (i : ℕ) (it : Ptr)
    (hlive : s.findsLive it = false) : CrawlNeutral s (s.crawlItem i it) := by
  unfold Store.crawlItem
  obtain ⟨e, ht⟩ | ⟨l, e, -, ht⟩ := tryLock_fresh s (s.hv it)
  · rw [ht]
    exact ItemsKept.crawlNeutral ⟨fun _ _ => rfl, fun _ _ => rfl, rfl⟩
  · rw [ht]
    obtain ⟨u, hu⟩ : ∃ u : Store, u = { s with env := e, itemLocks := l :: s.itemLocks } := ⟨_, rfl⟩
    have hinc : (u.refcountIncr it).1 = (s.refcountIncr it).1 := by rw [hu]; rfl
    have hut : u.tally = s.tally := by rw [hu]; rfl
    dsimp only
    rw [← hu]
    by_cases h2 : (u.refcountIncr it).1 = 2
    · -- nobody else refers to the item, so it is dead
      have hdead : s.isReclaimable it := by simpa [Store.findsLive, ht, ← hinc, h2] using hlive
      obtain ⟨-, st, he⟩ := (Inv.itemEvaluate_cases (u.refcountIncr it).2 it (u.hv it) i).resolve_right
        fun hr => hr.1 (by rw [hu]; exact hdead)
      have hold : Holds s { (u.refcountIncr it).2 with itemStats := st } it l := by
        refine ⟨?_, by rw [hu]; rfl⟩
        show (u.refcountIncr it).2.tally = _
        rw [u.refcountIncr_tally, hut]
      have hn : (u.refcountIncr it).2.heap.refcount it % 2 ^ 16 = 2 := by
        rw [show (u.refcountIncr it).2.heap.refcount it = u.heap.refcount it + 1 from
          Function.update_self _ _ _]
        exact h2
      have hcn := hold.crawlDrop hs (by rw [hu]; rfl) (by rw [hu]; rfl) hn (u.hv it)
      rw [if_neg (not_not.mpr h2)]
      simp only [Store.itemCrawlerEvaluate, he]
      exact ⟨hcn.linked, hcn.clsid, hcn.powerLargest, hcn.reclaimed⟩
    · rw [if_pos h2]
      refine ItemsKept.crawlNeutral ⟨fun x _ => ?_, fun _ _ => by rw [hu]; rfl, by rw [hu]; rfl⟩
      -- the reference is given back at once
      rw [Inv.refcountIncr_decr, ← hut]
      rfl

/-- **One iteration.** -/
theorem crawlStep_neutral {s : Store} (hs : s.Classed) {i : ℕ} (hlive : s.crawlsLive i = false) :
    CrawlNeutral s (s.crawlStep i) := by
  obtain ⟨-, -, he⟩ | ⟨-, u, hu, ⟨-, he⟩ | ⟨it, ht, he⟩⟩ := crawlStep_cases s i
  · rw [he]
    exact (ItemsKept.refl s).crawlNeutral
  · rw [he]
    exact (hu.itemsKept.trans (endCrawl_same u i)).crawlNeutral
  · have hk := hu.itemsKept
    have hsu : u.Classed := fun x hl hx => by
      rw [hk.clsid x hx, hk.slabs]
      exact hs x ((hk.linked hx).symm.trans hl) hx
    rw [Store.crawlsLive, ht] at hlive
    rw [he]
    exact .of_same hk (crawlItem_neutral hsu i it hlive)

/-! ## Sequences of iterations -/

/-- An iteration, for any queue, that evaluates no live item. -/
def CrawlsDead (s t : Store) : Prop := ∃ i, s.crawlsLive i = false ∧ t = s.crawlStep i

/-- **The crawler is neutral**: in every sequence of iterations that evaluate no live item, whatever the
queues hold and whatever locks are taken, each iteration leaves a linked item its reference count, and
one that it reclaims has none, is not linked and is the first one of its class's freelist. -/
theorem crawl_neutral {s₀ s : Store} (h0 : s₀.Classed) (h : Reach (· = s₀) CrawlsDead s) {i : ℕ}
    (hi : s.crawlsLive i = false) : CrawlNeutral s (s.crawlStep i) := by
  refine crawlStep_neutral (h.invariant (I := Store.Classed) ?_ ?_) hi
  · rintro _ rfl
    exact h0
  · rintro s _ hs ⟨i, hi, rfl⟩
    exact (crawlStep_neutral hs hi).classed hs

/-- Every store that any operations lead to is such. -/
theorem reach_classed {w : World} (h : Reach World.Init WorldStep w) : w.store.Classed := by
  obtain ⟨refs, ht⟩ := tracked_of_reach h
  obtain ⟨v, hv⟩ := ht.inv
  rintro (a | q) hl hx
  · obtain ⟨c, hc⟩ := hv.items_alloc _ ((hv.linked_iff a).mp hl)
    rw [(hv.alloc_ok c _ hc).clsid]
    exact hv.alloc_inRange hc
  · cases hx

/-- An item that expires at the time 5 is stored and given back, and a crawl of its class is started. -/
def crawledOps : List Op :=
  [.alloc (.byte 97) 0 5 3 0, .store (.chunk 4192) .set, .remove (.chunk 4192), .crawlStart 1 0]

/-- Once it has expired, the crawler reclaims it, and then comes to the end of the queue. -/
theorem crawl_neutral_expired :
    let s := (smallWorld.run (crawledOps ++ [.tick 6])).store
    ((s.crawlStep 129).flags (.chunk 4192)).linked = false ∧ CrawlNeutral s (s.crawlStep 129) ∧
      CrawlNeutral (s.crawlStep 129) ((s.crawlStep 129).crawlStep 129) := by
  obtain ⟨hr, -⟩ := reach_plays (.chunk 4192) (crawledOps ++ [.tick 6]) smallWorld_init (by decide +kernel)
  have h0 := reach_classed hr
  refine ⟨by decide +kernel, crawl_neutral h0 (.start rfl) (by decide +kernel), ?_⟩
  have h1 : CrawlsDead (smallWorld.run (crawledOps ++ [.tick 6])).store _ :=
    ⟨129, by decide +kernel, rfl⟩
  exact crawl_neutral h0 (.next (.start rfl) h1) (by decide +kernel)

/-- **A live item that nobody holds** has two references more when the crawler has looked at it: `Run`
takes one, `ItemCrawlerEvaluate` another, and neither is given back. -/
theorem crawl_leaks :
    let s := (smallWorld.run crawledOps).store
    (s.flags (.chunk 4192)).linked = true ∧ s.heap.refcount (.chunk 4192) = 1 ∧
      ((s.crawlStep 129).flags (.chunk 4192)).linked = true ∧
      (s.crawlStep 129).heap.refcount (.chunk 4192) = 3 := by
  decide +kernel

end Mdb
