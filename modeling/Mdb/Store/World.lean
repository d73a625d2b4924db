import Mdb.Lib.Run
import Mdb.Slabs.Runs
import Mdb.Store.Crawler
import Mdb.Store.StoreItem

/-!
# The store and its clients

The operations of the store in any order, together with the references its clients hold.

* `Op`, `Answer`: the operations, client's and background's, and what they return;
* `World`, `World.exec`: the store and the references handed out; `World.heldDuring`: those that are
  held while an operation runs;
* `Op.Ok`: the conditions every caller meets;
* **`World.exec_inv`**: every operation keeps the invariant, and moves references as it says;
* `Config`, `World.Init`: the initialised store;
* `World.Tracked`, **`World.Tracked.exec`**: the invariant along runs; `World.Balanced`,
  **`World.Balanced.exec`**: where no reference is kept but by the clients.
-/

namespace Mdb

open Run

/-- The operations. `fill` is the client's own: it writes the value of an item it has allocated, and
the CAS id it wants to compare with. `maintainer` is the start or the stop of the maintainer thread. -/
inductive Op where
  | alloc (key : Key) (flags : Int32) (exptime : UInt32) (nbytes : ℕ) (curHv : UInt32)
  | fill (it : Ptr) (data : ℕ → UInt8) (cas : UInt64)
  | store (it : Ptr) (op : NreadOpType)
  | get (key : Key)
  | touch (key : Key) (exptime : UInt32)
  | unlink (it : Ptr)
  | remove (it : Ptr)
  | update (it : Ptr)
  | pull (origId : ℕ) (curLru : LruStatus) (totalChunks : UInt64) (doEvict : Bool) (curHv : UInt32)
  | migrate
  | tick (now : UInt32)
  | flush (oldestLive : UInt32) (oldestCas : UInt64)
  | maintainer (on : Bool)
  | crawlStart (id : ℕ) (remaining : UInt32)
  | crawlStep (i : ℕ)

/-- What an operation returns. -/
inductive Answer where
  | done
  | item (it : Option Ptr)
  | status (r : StoreItemType)
  deriving DecidableEq

/-- The store, and how many references to each item clients have been handed and not given back. -/
structure World where
  store : Store
  held : Ptr → ℕ

namespace World

variable (w : World)

/-- The store has become `s`, and a reference to `it`, if any, is handed out. -/
def give (r : Option Ptr × Store) : Answer × World :=
  match r with
  | (none, s) => (.item none, { w with store := s })
  | (some it, s) => (.item (some it), ⟨s, Function.update w.held it (w.held it + 1)⟩)

/-- **One operation.** Callers pass `Hash(key)` for `hv`. -/
def exec : Op → Answer × World
  | .alloc key flags exptime nbytes curHv =>
    w.give (w.store.doItemAlloc key flags exptime nbytes curHv)
  | .fill it data cas => (.done, { w with store := (w.store.setData it data).setCas it cas })
  | .store it op =>
    let r := w.store.doStoreItem (w.store.hv it) it op
    (.status r.1, { w with store := r.2 })
  | .get key => w.give (w.store.doItemGet key (w.store.hash key))
  | .touch key exptime => w.give (w.store.doItemTouch key exptime (w.store.hash key))
  | .unlink it => (.done, { w with store := w.store.doItemUnlink it (w.store.hv it) })
  | .remove it =>
    (.done, ⟨w.store.doItemRemove it, Function.update w.held it (w.held it - 1)⟩)
  | .update it => (.done, { w with store := w.store.doItemUpdate it })
  | .pull origId curLru totalChunks doEvict curHv =>
    (.done, { w with
      store := (w.store.itemLRUPullTail origId curLru totalChunks doEvict curHv).2 })
  | .migrate => (.done, { w with store := w.store.migrateBucket })
  | .tick now => (.done, { w with store := { w.store with now := now } })
  | .flush oldestLive oldestCas =>
    (.done, { w with store := { w.store with settings := { w.store.settings with
      oldestLive := oldestLive, oldestCas := oldestCas } } })
  | .maintainer on =>
    (.done, { w with store := { w.store with settings := { w.store.settings with
      lruMaintainerThread := on } } })
  | .crawlStart id remaining =>
    (.done, { w with store := (w.store.doLRUCrawlerStart id remaining).2 })
  | .crawlStep i => (.done, { w with store := w.store.crawlStep i })

/-- The references held while `op` runs: the one being given back no longer counts. -/
def heldDuring : Op → Ptr → ℕ
  | .remove it => Function.update w.held it (w.held it - 1)
  | _ => w.held

end World

/-- `id` is a class, and none of the crawler nodes that starting a crawl of it would link is linked. -/
def Store.CanStart (s : Store) (id : ℕ) : Prop :=
  id < maxNumberOfSlabClasses ∧
    ∀ sid ∈ Store.tocrawl id, s.lru.tails sid ≠ none → s.heap.itFlags (.crawler sid) ≠ .one

/-- **What callers see to.** A value has at least its two end bytes; only a held item is stored or
released, and only an unlinked one is written to. -/
def Op.Ok (w : World) : Op → Prop
  | .alloc _ _ _ nbytes _ => 2 ≤ nbytes
  | .fill it _ _ => 1 ≤ w.held it ∧ (w.store.heap.itFlags it).linked = false
  | .store it _ | .remove it => 1 ≤ w.held it
  | .unlink it | .update it => it.isChunk = true
  | .crawlStart id _ => w.store.CanStart id
  | _ => True

instance (s : Store) (id : ℕ) : Decidable (s.CanStart id) :=
  inferInstanceAs (Decidable (_ ∧ ∀ sid ∈ Store.tocrawl id, _ → _))

instance (w : World) : (op : Op) → Decidable (op.Ok w)
  | .alloc _ _ _ nbytes _ => inferInstanceAs (Decidable (2 ≤ nbytes))
  | .fill it _ _ => inferInstanceAs (Decidable (1 ≤ w.held it ∧ _ = false))
  | .store it _ | .remove it => inferInstanceAs (Decidable (1 ≤ w.held it))
  | .unlink it | .update it => inferInstanceAs (Decidable (it.isChunk = true))
  | .crawlStart id _ => inferInstanceAs (Decidable (w.store.CanStart id))
  | .get _ | .touch _ _ | .pull _ _ _ _ _ | .migrate | .tick _ | .flush _ _ | .maintainer _
  | .crawlStep _ =>
    inferInstanceAs (Decidable True)

/-- The operations that, without the maintainer thread, give back every reference they take. -/
def Op.Exact : Op → Prop
  | .pull _ curLru _ _ _ => curLru = .warm ∨ curLru = .cold
  | .crawlStep _ | .maintainer _ => False
  | _ => True

/-- A `DoStoreItem`. -/
def Op.Stores : Op → Prop
  | .store _ _ => True
  | _ => False

/-- The settings no operation changes: tail repair is off, CAS is on. -/
structure SettingsOk (st : Settings) : Prop where
  tailRepairTime : st.tailRepairTime = 0
  useCas : st.useCas = true

namespace Inv

variable {b : Base} {s : Store} {v : View} {refs : Ptr → ℕ}

/-- At the start of an operation the base is laid anew. -/
theorem rebase (h : Inv b s v refs) {held : Ptr → ℕ} (hle : ∀ x, held x ≤ refs x) :
    Inv ⟨held, s.trace, b.moved⟩ s v refs :=
  ⟨h.queues, h.table, h.hashpower_le, h.slabs, h.linked_iff, h.items_alloc, h.queue_iff, h.crawler,
    h.alloc_ok, h.refs_zero, h.live, h.trace, hle, ⟨[], rfl, fun _ hev => by cases hev⟩, h.casBit,
    h.gone, h.counters, h.crawlers⟩

theorem setNow (h : Inv b s v refs) (now : UInt32) : Inv b { s with now := now } v refs :=
  h.agree ⟨rfl, rfl, rfl, rfl, rfl, rfl, rfl, rfl, rfl, rfl, rfl, rfl, rfl, rfl, rfl, rfl, rfl, rfl, rfl⟩

/-- Neither a flush nor the maintainer thread's start and stop change what the invariant is about. -/
theorem setSettings (h : Inv b s v refs) (oldestLive : UInt32) (oldestCas : UInt64) (on : Bool) :
    Inv b { s with settings := { s.settings with
      oldestLive := oldestLive, oldestCas := oldestCas, lruMaintainerThread := on } } v refs := by
  have hp := h.slabs.pages
  have hv := h.slabs.valid
  refine ⟨h.queues, h.table, h.hashpower_le, ⟨h.slabs.freelists, ?_, ?_, h.slabs.perm⟩, h.linked_iff,
    h.items_alloc, h.queue_iff, h.crawler, h.alloc_ok, h.refs_zero, h.live, h.trace, h.held_le,
    h.events, h.casBit, h.gone, h.counters.congr ⟨rfl, rfl⟩ h.counters.hash (fun _ => ⟨rfl, rfl⟩)
      (fun _ _ => rfl) fun _ _ _ => rfl, h.crawlers.congr rfl fun _ => rfl⟩
  · exact ⟨hp.1, hp.2, hp.3, hp.4, hp.5, hp.6, hp.7, hp.8⟩
  · exact ⟨hv.1, hv.2, hv.3, hv.4, hv.5, hv.6, hv.7⟩

/-! ## Starting a crawl -/

theorem tocrawl_nodup {id : ℕ} (h : id < maxNumberOfSlabClasses) : (Store.tocrawl id).Nodup := by
  have : ∀ c : Fin 64, (Store.tocrawl c).Nodup := by decide
  exact this ⟨id, h⟩

theorem tocrawl_lt {id : ℕ} (h : id < maxNumberOfSlabClasses) :
    ∀ sid ∈ Store.tocrawl id, sid < largestId := by
  have : ∀ c : Fin 64, ∀ sid ∈ Store.tocrawl c, sid < largestId := by decide
  exact this ⟨id, h⟩

theorem linkCrawler_frame (s : Store) {sid sid' : ℕ} (hne : sid' ≠ sid) (remaining : UInt32) :
    (s.linkCrawler sid remaining).lru.tails sid' = s.lru.tails sid' ∧
      (s.linkCrawler sid remaining).heap.itFlags (.crawler sid') =
        s.heap.itFlags (.crawler sid') := by
  have hc : Ptr.crawler sid' ≠ .crawler sid := fun e => hne (Ptr.crawler.inj e)
  simp [Store.linkCrawler, Store.doItemLinkQ, hne, hc]

/-- What starting crawls leaves alone: every chunk, the table, the settings and the clock. -/
structure Crawls (s s' : Store) : Prop where
  same : ∀ a, s.heap.SameAt s'.heap (.chunk a)
  globals : SameGlobals s s'
  casId : s'.casId = s.casId
  slabs : s'.slabs = s.slabs

theorem Crawls.refl (s : Store) : Crawls s s := ⟨fun _ => .refl _ _, ⟨rfl, rfl, rfl, rfl⟩, rfl, rfl⟩

theorem Crawls.trans {s₁ s₂ s₃ : Store} (h : Crawls s₁ s₂) (h' : Crawls s₂ s₃) : Crawls s₁ s₃ :=
  ⟨fun a => (h.same a).trans (h'.same a), h.globals.trans h'.globals, h'.casId.trans h.casId,
    h'.slabs.trans h.slabs⟩

theorem linkCrawler_crawls (s : Store) (sid : ℕ) (remaining : UInt32) :
    Crawls s (s.linkCrawler sid remaining) :=
  ⟨fun _ => ⟨rfl, rfl, rfl, rfl, rfl, rfl, rfl, rfl, rfl, rfl⟩, ⟨rfl, rfl, rfl, rfl⟩, rfl, rfl⟩

theorem startQueues_crawls (remaining : UInt32) (sids : List ℕ) : ∀ (n : ℕ) (s : Store),
    Crawls s (sids.foldl (Store.startQueue remaining) (n, s)).2 := by
  induction sids with
  | nil => exact fun _ s => .refl s
  | cons sid sids ih =>
    intro n s
    rw [List.foldl_cons, Store.startQueue]
    split_ifs
    · exact ih n s
    · exact (linkCrawler_crawls s sid remaining).trans (ih _ _)

theorem doLRUCrawlerStart_crawls (s : Store) (id : ℕ) (remaining : UInt32) :
    Crawls s (s.doLRUCrawlerStart id remaining).2 := by
  have h := startQueues_crawls remaining (Store.tocrawl id) 0 s
  dsimp only [Store.doLRUCrawlerStart]
  split_ifs
  · exact h
  · exact h.trans ⟨fun _ => ⟨rfl, rfl, rfl, rfl, rfl, rfl, rfl, rfl, rfl, rfl⟩, ⟨rfl, rfl, rfl, rfl⟩, rfl,
      rfl⟩

/-- The loop of `DoLRUCrawlerStart`: each queue's own node is linked. -/
theorem startQueues (remaining : UInt32) (sids : List ℕ) : ∀ (n : ℕ) (s : Store) (v : View),
    Inv b s v refs → sids.Nodup → (∀ sid ∈ sids, sid < largestId) →
    (∀ sid ∈ sids, s.lru.tails sid ≠ none → s.heap.itFlags (.crawler sid) ≠ .one) →
    ∃ v', Inv b (sids.foldl (Store.startQueue remaining) (n, s)).2 v' refs ∧ v'.items = v.items := by
  induction sids with
  | nil =>
    intro n s v h _ _ _
    exact ⟨v, h, rfl⟩
  | cons sid sids ih =>
    intro n s v h hnd hlt hoff
    have hlt' : ∀ sid' ∈ sids, sid' < largestId := fun sid' hm => hlt sid' (List.mem_cons_of_mem _ hm)
    rw [List.nodup_cons] at hnd
    rw [List.foldl_cons, Store.startQueue]
    split_ifs with ht
    · exact ih n s v h hnd.2 hlt' fun sid' hm => hoff sid' (List.mem_cons_of_mem _ hm)
    · have h1 := h.linkCrawler (hlt sid List.mem_cons_self) (hoff sid List.mem_cons_self ht) remaining
      obtain ⟨v', h', hi⟩ := ih (n + 1) _ _ h1 hnd.2 hlt' fun sid' hm => by
        have hne : sid' ≠ sid := fun e => hnd.1 (e ▸ hm)
        rw [(linkCrawler_frame s hne remaining).1, (linkCrawler_frame s hne remaining).2]
        exact hoff sid' (List.mem_cons_of_mem _ hm)
      exact ⟨v', h', hi⟩

/-- **`DoLRUCrawlerStart`** when none of its nodes is linked. -/
theorem doLRUCrawlerStart (h : Inv b s v refs) {id : ℕ} (hid : s.CanStart id)
    (remaining : UInt32) :
    ∃ v', Inv b (s.doLRUCrawlerStart id remaining).2 v' refs ∧ v'.items = v.items ∧
      Crawls s (s.doLRUCrawlerStart id remaining).2 := by
  obtain ⟨v', h', hi⟩ := startQueues remaining (Store.tocrawl id) 0 s v h (tocrawl_nodup hid.1)
    (tocrawl_lt hid.1) hid.2
  refine ⟨v', ?_, hi, doLRUCrawlerStart_crawls s id remaining⟩
  dsimp only [Store.doLRUCrawlerStart]
  split_ifs
  · exact h'
  · exact h'.agree ⟨rfl, rfl, rfl, rfl, rfl, rfl, rfl, rfl, rfl, rfl, rfl, rfl, rfl, rfl, rfl, rfl, rfl,
      rfl, rfl⟩

end Inv

namespace World

/-! ## One operation -/

variable {w : World} {v : View} {refs : Ptr → ℕ} {m : Moved}

/-- The references of an operation that has handed out `x`. -/
theorem update_add (f : Ptr → ℕ) (g : Ptr → ℕ) (x y : Ptr) :
    g y + Function.update f x (f x + 1) y = Function.update g x (g x + 1) y + f y := by
  by_cases e : y = x
  · subst e; rw [Function.update_self, Function.update_self]; omega
  · rw [Function.update_of_ne e, Function.update_of_ne e]

/-- What an operation has kept: the invariant, with the references moved as those of the clients; the
background may keep some for itself. -/
def Kept (m : Moved) (w : World) (op : Op) (refs : Ptr → ℕ) (w' : World) : Prop :=
  ∃ v' refs', Inv ⟨w.heldDuring op, w.store.trace, m⟩ w'.store v' refs' ∧
    (∀ x, refs x + w'.held x ≤ refs' x + w.held x) ∧
    (op.Exact → w.store.settings.lruMaintainerThread = false →
      (∀ x, refs x + w'.held x = refs' x + w.held x) ∧
        w'.store.settings.lruMaintainerThread = false) ∧
    w'.store.settings.tailRepairTime = w.store.settings.tailRepairTime ∧
    w'.store.settings.useCas = w.store.settings.useCas

/-- An operation that leaves the settings alone. -/
theorem Kept.of_balance {op : Op} {w' : World} {v' : View} {refs' : Ptr → ℕ}
    (h : Inv ⟨w.heldDuring op, w.store.trace, m⟩ w'.store v' refs')
    (hs : w'.store.settings = w.store.settings)
    (hge : ∀ x, refs x + w'.held x ≤ refs' x + w.held x)
    (heq : op.Exact → w.store.settings.lruMaintainerThread = false →
      ∀ x, refs x + w'.held x = refs' x + w.held x) : Kept m w op refs w' :=
  ⟨v', refs', h, hge, fun hex hm => ⟨heq hex hm, by rw [hs]; exact hm⟩, by rw [hs], by rw [hs]⟩

theorem Kept.of_same {op : Op} {s' : Store} {v' : View}
    (h : Inv ⟨w.heldDuring op, w.store.trace, m⟩ s' v' refs) (hs : s'.settings = w.store.settings) :
    Kept m w op refs { w with store := s' } :=
  .of_balance h hs (fun _ => le_rfl) fun _ _ _ => rfl

/-- An operation that has handed out `x`, and whose walks may have kept references. -/
theorem Kept.of_given {op : Op} {s' : Store} {v' : View} {x : Ptr} {refs' : Ptr → ℕ}
    (h : Inv ⟨w.heldDuring op, w.store.trace, m⟩ s' v' (Function.update refs' x (refs' x + 1)))
    (hs : s'.settings = w.store.settings) (hge : ∀ y, refs y ≤ refs' y)
    (hoff : w.store.settings.lruMaintainerThread = false → refs' = refs) :
    Kept m w op refs ⟨s', Function.update w.held x (w.held x + 1)⟩ := by
  refine .of_balance h hs (fun y => ?_) fun _ hm y => ?_
  · have := update_add w.held refs' x y
    have := hge y
    show refs y + Function.update w.held x (w.held x + 1) y ≤ _
    omega
  · rw [hoff hm]; exact update_add w.held refs x y

/-- A `DoItemGet` hands out what it returns. -/
theorem kept_get (h : Inv ⟨w.held, w.store.trace, m⟩ w.store v refs) (hle : ∀ x, refs x ≤ 65534)
    (op : Op) (hop : w.heldDuring op = w.held) (key : Key) :
    Kept m w op refs (w.give (w.store.doItemGet key (w.store.hash key))).2 := by
  rcases h.get_cases key fun x _ _ => hle x with ⟨s', v', he, ms⟩ | ⟨x, s', he, hit⟩
  · rw [he]
    exact .of_same (by rw [hop]; exact ms.inv) ms.data.settings
  · rw [he]
    exact .of_given (by rw [hop]; exact hit.inv) hit.quiet.data.settings (fun _ => le_rfl)
      fun _ => rfl

/-- **Every operation keeps the invariant.** -/
theorem exec_inv {op : Op} (h : Inv ⟨w.heldDuring op, w.store.trace, m⟩ w.store v refs)
    (hrep : w.store.settings.tailRepairTime = 0)
    (hcas : op.Stores → w.store.settings.useCas = true) (hok : op.Ok w)
    (hheld : ∀ x, w.held x ≤ refs x) (hle : ∀ x, refs x + w.store.slack 5 ≤ 65534) :
    Kept m w op refs (w.exec op).2 := by
  have hle0 : ∀ x, refs x ≤ 65534 := fun x => by have := hle x; omega
  cases op with
  | alloc key flags exptime nbytes curHv =>
    obtain ⟨refs', lk, hr⟩ := h.doItemAlloc hrep key flags exptime hok curHv
      fun x _ => hle x
    rcases hr with ⟨s', v', he, h', p⟩ | ⟨it, s', v', he, h', md, hr, hd⟩
    · rw [exec, he]
      refine .of_balance h' p.data.settings (fun x => ?_) fun _ hm x => ?_
      · exact Nat.add_le_add_right (lk.ge x) _
      · rw [lk.off hm]; rfl
    · rw [exec, he]
      rw [show Function.update refs' it 1 = Function.update refs' it (refs' it + 1) by rw [hr]] at h'
      exact .of_given h' md.globals.settings lk.ge lk.off
  | fill it data cas =>
    refine .of_same ((h.setData it data).setCas it cas) ?_
    dsimp only [Store.setCas]
    split_ifs <;> rfl
  | store it op =>
    obtain ⟨r, s', v', refs', he, h', lk, ef⟩ := h.doStoreItem hle (hok.trans (hheld it))
      (hcas trivial) hrep op
    have he' : (w.exec (.store it op)).2 = { w with store := s' } := by simp only [exec, he]
    rw [he']
    refine .of_balance h' ef.globals.settings (fun x => ?_) fun _ hm x => ?_
    · exact Nat.add_le_add_right (lk.ge x) _
    · rw [lk.off hm]
  | get key => exact kept_get h hle0 _ rfl key
  | touch key exptime =>
    obtain ⟨v', refs', h', h1, h2, h3⟩ := kept_get h hle0 (.touch key exptime) rfl key
    simp only [exec, Store.doItemTouch]
    rcases he : w.store.doItemGet key (w.store.hash key) with ⟨_ | x, s'⟩
    · rw [he] at h' h1 h2 h3
      exact ⟨v', refs', h', h1, h2, h3⟩
    · rw [he] at h' h1 h2 h3
      exact ⟨v', refs', h'.setExptime x exptime, h1, h2, h3⟩
  | unlink it =>
    by_cases hx : it ∈ v.items
    · obtain ⟨v', h', d⟩ := h.doItemUnlink hx ((hle0 it).trans (by decide))
      exact .of_same h' d.data.settings
    · rw [exec, h.doItemUnlink_unlinked hok hx]
      exact .of_same h rfl
  | remove it =>
    have hpos : 1 ≤ w.held it := hok
    have hlt : w.heldDuring (.remove it) it < refs it := by
      have := hheld it
      simp only [heldDuring, Function.update_self]
      omega
    have hrc := h.refcount_le (h.alloc_of_refs (x := it) (by omega))
    obtain ⟨v', h', q, -⟩ := h.doItemRemove (x := it) hlt (by have := hle0 it; omega)
    have hbal : ∀ y, refs y + Function.update w.held it (w.held it - 1) y =
        Function.update refs it (refs it - 1) y + w.held y := fun y => by
      by_cases e : y = it
      · subst e
        have := hheld y
        rw [Function.update_self, Function.update_self]; omega
      · rw [Function.update_of_ne e, Function.update_of_ne e]
    exact .of_balance h' q.data.settings (fun y => (hbal y).le) fun _ _ => hbal
  | update it =>
    obtain ⟨v', h', mv⟩ := h.doItemUpdate hok
    exact .of_same h' mv.data.settings
  | pull origId curLru totalChunks doEvict curHv =>
    obtain ⟨v', refs', L, h', hp, hl⟩ := h.itemLRUPullTail hrep origId curLru
      totalChunks doEvict curHv fun x _ => hle0 x
    refine .of_balance h' hp.data.settings (fun y => ?_) fun hex _ y => ?_
    · rcases hl y with e | ⟨-, -, -, e⟩ <;> rw [e] <;> simp only [exec] <;> omega
    · rw [hl.none hex]; rfl
  | migrate =>
    obtain ⟨a, e, st, hs, -⟩ := w.store.migrateBucket_frame
    exact .of_same h.migrateBucket (by rw [hs])
  | tick now => exact .of_same (h.setNow now) rfl
  | flush oldestLive oldestCas =>
    exact ⟨v, refs, h.setSettings oldestLive oldestCas w.store.settings.lruMaintainerThread,
      fun _ => le_rfl, fun _ hm => ⟨fun _ => rfl, hm⟩, rfl, rfl⟩
  | maintainer on =>
    exact ⟨v, refs, h.setSettings w.store.settings.oldestLive w.store.settings.oldestCas on,
      fun _ => le_rfl, fun hex => hex.elim, rfl, rfl⟩
  | crawlStart id remaining =>
    obtain ⟨v', h', -, hc⟩ := h.doLRUCrawlerStart hok remaining
    exact .of_same h' hc.globals.settings
  | crawlStep i =>
    obtain ⟨v', refs', h', td, hr⟩ := h.crawlStep hle0 i
    refine .of_balance h' td.data.settings (fun y => ?_) fun hex => hex.elim
    have : refs y ≤ refs' y := by
      rcases hr with rfl | ⟨x, -, rfl⟩
      · exact le_rfl
      · by_cases e : y = x
        · subst e; rw [Function.update_self]; omega
        · rw [Function.update_of_ne e]
    simp only [exec]
    omega

end World

/-! ## Runs -/

/-- What a store is set up with. -/
structure Config where
  settings : Settings
  limit : ℕ
  num : ℕ
  den : ℕ
  base : Option ℕ
  hashpower : ℕ

/-- The settings of `InitDB`; `base` is where the memory was allocated. -/
def Config.initDB (base : Option ℕ) : Config := ⟨initDBSettings, 64 * 1024 * 1024, 5, 4, base, 16⟩

/-- **Settings like those of `InitDB`**: nothing is flushed, the threads and tail repair are off, CAS
is on. Sizes and limits may be others. -/
structure Config.Ok (c : Config) : Prop where
  slabs : SlabsConfig c.settings c.limit c.num c.den
  settings : SettingsOk c.settings
  lruMaintainerThread : c.settings.lruMaintainerThread = false
  oldestLive : c.settings.oldestLive = 0
  hashpower_pos : 1 ≤ c.hashpower
  hashpower_le : c.hashpower ≤ 31

theorem Config.initDB_ok (base : Option ℕ) : (Config.initDB base).Ok :=
  ⟨initDB_slabsConfig, ⟨rfl, rfl⟩, rfl, rfl, show 1 ≤ 16 by decide, show 16 ≤ 31 by decide⟩

/-- The empty store. -/
def Config.store (c : Config) (hash : Key → UInt32) (env : Env) : Store :=
  { Store.initial c.hashpower hash (initSlabs c.settings c.limit c.num c.den c.base) env with
    settings := c.settings }

/-- The empty store, and nobody holds anything. -/
def Config.world (c : Config) (hash : Key → UInt32) (env : Env) : World := ⟨c.store hash env, fun _ => 0⟩

/-- Nothing is linked or handed out. -/
def View.empty : View := ⟨fun _ => [], fun _ => [], fun _ => [], []⟩

/-- **The empty store has the invariant.** -/
theorem Config.inv {c : Config} (hs : SlabsConfig c.settings c.limit c.num c.den)
    (hp : 1 ≤ c.hashpower) (hp' : c.hashpower ≤ 31) (hash : Key → UInt32) (env : Env)
    (held : Ptr → ℕ) (hheld : ∀ x, held x = 0) :
    Inv ⟨held, [], .none⟩ (c.store hash env) .empty fun _ => 0 := by
  obtain ⟨hv, hb⟩ := initSlabs_ok hs c.base
  have hna : ∀ x, ¬ View.empty.Alloc x := fun x ⟨_, hx⟩ => by cases hx
  refine ⟨.empty (fun _ => rfl) (fun _ => rfl) (fun _ => rfl), .initial hp,
    hp', SlabsOk.blank hv hb, fun a => ?_, fun x hx => (by cases hx), fun x q => ?_,
    fun q hq => (by cases hq), fun c x hx => (by cases hx), fun _ _ => rfl, fun x => ?_, trivial,
    fun x => (hheld x).le, ⟨[], rfl, fun _ hev => (by cases hev)⟩, fun x hx => absurd hx (hna x),
    fun c x hx => (by cases hx), ⟨rfl, rfl, ⟨rfl, rfl⟩, fun c => (hb c).2.2.2.2,
      fun c x hx => (by cases hx)⟩, fun q hq => (by cases hq), ?_⟩
  · exact ⟨fun hf => (by cases hf), fun hx => (by cases hx)⟩
  · constructor
    · intro hx; cases hx
    · rintro (⟨hx, -⟩ | ⟨-, hf⟩)
      · cases hx
      · cases hf
  · exact ⟨fun hx => hx.elim, fun hx => absurd hx (hna x)⟩
  · have : (Heap.zero).crawling = [] := List.filter_eq_nil_iff.mpr fun q _ =>
      show ¬ decide (ItemFlags.none = ItemFlags.one) = true by decide
    show (0 : ℤ) = ((Heap.zero).crawling.length : ℤ)
    rw [this]; rfl

theorem Config.Ok.inv {c : Config} (hc : c.Ok) (hash : Key → UInt32) (env : Env) (held : Ptr → ℕ)
    (hheld : ∀ x, held x = 0) : Inv ⟨held, [], .none⟩ (c.store hash env) .empty fun _ => 0 :=
  Config.inv hc.slabs hc.hashpower_pos hc.hashpower_le hash env held hheld

namespace World

/-- An initial world. -/
def Init (w : World) : Prop := ∃ c hash env, Config.Ok c ∧ w = c.world hash env

/-- The world has the invariant, where `refs` counts all references, and the slab rebalancer has taken
`m`. -/
structure Tracked (w : World) (refs : Ptr → ℕ) (m : Moved := .none) : Prop where
  settings : SettingsOk w.store.settings
  inv : ∃ v, Inv ⟨fun _ => 0, w.store.trace, m⟩ w.store v refs
  held_le : ∀ x, w.held x ≤ refs x

theorem Tracked.init {w : World} (h : w.Init) : w.Tracked w.held := by
  obtain ⟨c, hash, env, hc, rfl⟩ := h
  exact ⟨hc.settings, ⟨_, hc.inv hash env (fun _ => 0) fun _ => rfl⟩, fun _ => le_rfl⟩

theorem heldDuring_le (w : World) (op : Op) (x : Ptr) : w.heldDuring op x ≤ w.held x := by
  cases op with
  | remove it =>
    by_cases e : x = it
    · subst e; simp only [heldDuring, Function.update_self]; omega
    · simp only [heldDuring, Function.update_of_ne e]; rfl
  | _ => exact le_rfl

/-- The invariant at the start of an operation. -/
theorem Tracked.start {w : World} {refs : Ptr → ℕ} {m : Moved} (h : w.Tracked refs m) (op : Op) :
    ∃ v, Inv ⟨w.heldDuring op, w.store.trace, m⟩ w.store v refs := by
  obtain ⟨v, hv⟩ := h.inv
  exact ⟨v, hv.rebase fun x => (w.heldDuring_le op x).trans (h.held_le x)⟩

/-- **One operation.** -/
theorem Tracked.exec {w : World} {refs : Ptr → ℕ} {m : Moved} (h : w.Tracked refs m) {op : Op}
    (hok : op.Ok w) (hle : ∀ x, refs x + w.store.slack 5 ≤ 65534) :
    ∃ refs', (w.exec op).2.Tracked refs' m ∧
      (op.Exact → w.store.settings.lruMaintainerThread = false →
        (∀ x, refs x + (w.exec op).2.held x = refs' x + w.held x) ∧
          (w.exec op).2.store.settings.lruMaintainerThread = false) := by
  obtain ⟨v, hv⟩ := h.start op
  obtain ⟨v', refs', h', hge, heq, hs⟩ := exec_inv hv h.settings.tailRepairTime
    (fun _ => h.settings.useCas) hok h.held_le hle
  refine ⟨refs', ⟨⟨hs.1.trans h.settings.tailRepairTime, hs.2.trans h.settings.useCas⟩,
    ⟨v', h'.rebase fun _ => Nat.zero_le _⟩, fun x => ?_⟩, heq⟩
  have := hge x
  have := h.held_le x
  omega

/-- The maintainer thread is off and all references are the clients'. -/
structure Balanced (w : World) : Prop where
  tracked : w.Tracked w.held
  off : w.store.settings.lruMaintainerThread = false

/-- Fewer than 65535 references to one item are outstanding. -/
def Few (w : World) : Prop := ∀ x, w.held x < 65535

theorem Few.le {w : World} (h : w.Few) (x : Ptr) : w.held x ≤ 65534 := Nat.le_of_lt_succ (h x)

theorem Balanced.init {w : World} (h : w.Init) : w.Balanced := by
  refine ⟨.init h, ?_⟩
  obtain ⟨c, hash, env, hc, rfl⟩ := h
  exact hc.lruMaintainerThread

theorem Balanced.bound {w : World} (h : w.Balanced) (hfew : w.Few) (x : Ptr) :
    w.held x + w.store.slack 5 ≤ 65534 := by
  rw [Store.slack, h.off]
  exact hfew.le x

/-- **Exact operations keep the references those of the clients.** -/
theorem Balanced.exec {w : World} (h : w.Balanced) (op : Op) (hex : op.Exact) (hok : op.Ok w)
    (hfew : w.Few) : (w.exec op).2.Balanced := by
  obtain ⟨refs', h', he⟩ := h.tracked.exec hok (h.bound hfew)
  obtain ⟨he, hoff⟩ := he hex h.off
  obtain rfl : refs' = (w.exec op).2.held := by
    funext x
    have := he x
    omega
  exact ⟨h', hoff⟩

/-! ## References handed out by a run -/

theorem held_give_le (w : World) (r : Option Ptr × Store) (x : Ptr) :
    (w.give r).2.held x ≤ w.held x + 1 := by
  rcases r with ⟨_ | it, s⟩
  · exact Nat.le_succ _
  · by_cases e : x = it
    · subst e; simp only [give, Function.update_self]; rfl
    · simp only [give, Function.update_of_ne e]; exact Nat.le_succ _

theorem held_exec_le (w : World) (op : Op) (x : Ptr) : (w.exec op).2.held x ≤ w.held x + 1 := by
  cases op with
  | alloc | get | touch => exact held_give_le w _ x
  | remove it =>
    by_cases e : x = it
    · subst e; simp only [exec, Function.update_self]; omega
    · simp only [exec, Function.update_of_ne e]; exact Nat.le_succ _
  | _ => exact Nat.le_succ _

/-- The operations, one after the other. -/
def run (w : World) (ops : List Op) : World := ops.foldl (fun w op => (w.exec op).2) w

theorem held_run_le (w : World) (ops : List Op) (x : Ptr) :
    (w.run ops).held x ≤ w.held x + ops.length := by
  induction ops generalizing w with
  | nil => exact le_rfl
  | cons op ops ih =>
    have h1 := held_exec_le w op x
    have h2 := ih (w.exec op).2
    simp only [run, List.foldl_cons, List.length_cons] at h2 ⊢
    omega

end World

end Mdb
