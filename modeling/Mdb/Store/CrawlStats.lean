import Mdb.Store.Recrawl

/-!
# Crawl statistics

A crawler counts every item that it leaves in place: in `seen`, and in one of `noexp`,
`ttl_hourplus` and the 60 buckets of `histo`. The clock is read twice, by `ItemEvaluate` for the
test whether the item has expired and by `ItemCrawlerEvaluate` for the time it has left.

* `itemCrawlerEvaluateAt`: the evaluation with the clock at its second reading;
* `Counter`, `Counted.counter`: where an item is counted;
* `CrawlTally`, `TallyCall`: starts and evaluations, beside the items counted since the last start;
* `CrawlTally.Tallies`: every counter is the number of its items, modulo `2^64`; no step breaks it;
* **`crawl_stats_conserved`**: if the clock does not pass the expiry of an item between the two
  readings, and a class counts fewer than `2^64` items between two starts, then the counters add up
  to `seen`, and `ttl_hourplus` has the items with more than 3599 seconds left;
* `crawl_stats_wrap`: an item that expires between the readings is counted in `ttl_hourplus`.
-/

namespace Mdb

open Run

/-! ## One evaluation -/

/-- The counters beside `seen`. -/
inductive Counter where
  | noexp
  | ttlHourplus
  | histo (bucket : ℕ)
  deriving DecidableEq

/-- The value of a counter. -/
def CrawlerStats.counter (cs : CrawlerStats) : Counter → UInt64
  | .noexp => cs.noexp
  | .ttlHourplus => cs.ttlHourplus
  | .histo bucket => cs.histo bucket

/-- `possible_reclaims` in `LRUMaintainerCrawlerCheck`. -/
def CrawlerStats.possibleReclaims (cs : CrawlerStats) : UInt64 := cs.seen - cs.noexp

/-- An item that was counted: its expiry, and the clock that was read to count it. -/
structure Counted where
  exptime : UInt32
  clock : UInt32
  deriving DecidableEq

/-- The counter of an item; the time it has left is a difference of unsigned numbers. -/
def Counted.counter (e : Counted) : Counter :=
  if e.exptime = 0 then .noexp
  else if 3599 < e.exptime - e.clock then .ttlHourplus
  else .histo ((e.exptime - e.clock) / 60).toNat

/-- The counter moves. -/
def CrawlerStats.count (cs : CrawlerStats) : Counter → CrawlerStats
  | .noexp => { cs with noexp := cs.noexp + 1 }
  | .ttlHourplus => { cs with ttlHourplus := cs.ttlHourplus + 1 }
  | .histo b => { cs with histo := Function.update cs.histo b (cs.histo b + 1) }

/-- `ItemCrawlerEvaluate(it, hv, i)` where the clock stands at `later` when `ItemEvaluate` is back. -/
def Store.itemCrawlerEvaluateAt (s : Store) (later : UInt32) (it : Ptr) (hv : UInt32) (i : ℕ) :
    Store :=
  match s.itemEvaluate it hv i with
  | (true, s) => { s with now := later }.bumpCrawl (clearLru i) fun c =>
      { c with reclaimed := c.reclaimed + 1 }
  | (false, s) => (({ s with now := later }.bumpCrawl (clearLru i) fun c =>
      { c with seen := c.seen + 1 }).refcountIncr it).2.countExpiry it i

/-- The clock stands still in `itemCrawlerEvaluate`. -/
theorem itemCrawlerEvaluate_eq (s : Store) (it : Ptr) (hv : UInt32) (i : ℕ) :
    s.itemCrawlerEvaluate it hv i = s.itemCrawlerEvaluateAt s.now it hv i := by
  obtain ⟨-, st, he⟩ | ⟨-, st, he⟩ := Inv.itemEvaluate_cases s it hv i
  · have hnow : _ = s.now := (OnlyItem.drop { s with itemStats := st } it hv).now
    generalize ({ s with itemStats := st }.doItemUnlink it hv).doItemRemove it = t at he hnow
    simp only [Store.itemCrawlerEvaluate, Store.itemCrawlerEvaluateAt, he, ← hnow]
  · simp only [Store.itemCrawlerEvaluate, Store.itemCrawlerEvaluateAt, he]
    rfl

theorem countExpiry_stats (s : Store) (it : Ptr) (i c : ℕ) :
    (s.countExpiry it i).crawlers.crawlerStats c =
      if clearLru i = c
      then (s.crawlers.crawlerStats c).count (Counted.counter ⟨s.heap.exptime it, s.now⟩)
      else s.crawlers.crawlerStats c := by
  unfold Store.countExpiry Counted.counter
  split_ifs with h0 hc hf hc hc <;> simp [bumpCrawl_stats, hc, CrawlerStats.count]

/-- **An item that has expired** is reclaimed. -/
theorem evaluateAt_dead {s : Store} {it : Ptr} (h : s.isReclaimable it) (later hv : UInt32)
    (i c : ℕ) : (s.itemCrawlerEvaluateAt later it hv i).crawlers.crawlerStats c =
      if clearLru i = c then
        { s.crawlers.crawlerStats c with reclaimed := (s.crawlers.crawlerStats c).reclaimed + 1 }
      else s.crawlers.crawlerStats c := by
  obtain ⟨-, st, he⟩ | ⟨hn, -⟩ := Inv.itemEvaluate_cases s it hv i
  · have hcr := (OnlyItem.drop { s with itemStats := st } it hv).crawlers
    simp only [Store.itemCrawlerEvaluateAt, he, bumpCrawl_stats, hcr]
  · exact absurd h hn

/-- **Any other item** is seen and counted, by the clock at its second reading. -/
theorem evaluateAt_live {s : Store} {it : Ptr} (h : ¬ s.isReclaimable it) (later hv : UInt32)
    (i c : ℕ) : (s.itemCrawlerEvaluateAt later it hv i).crawlers.crawlerStats c =
      if clearLru i = c then
        { s.crawlers.crawlerStats c with
          seen := (s.crawlers.crawlerStats c).seen + 1 }.count
            (Counted.counter ⟨s.heap.exptime it, later⟩)
      else s.crawlers.crawlerStats c := by
  obtain ⟨hr, -⟩ | ⟨-, st, he⟩ := Inv.itemEvaluate_cases s it hv i
  · exact absurd hr h
  · simp only [Store.itemCrawlerEvaluateAt, he, countExpiry_stats]
    split_ifs with hc
    · subst hc
      simp [Store.refcountIncr, Store.setRefcount, Store.bumpCrawl]
    · simp [Store.refcountIncr, Store.setRefcount, Store.bumpCrawl,
        Function.update_of_ne (Ne.symm hc)]

@[simp] theorem seen_count (cs : CrawlerStats) (k : Counter) : (cs.count k).seen = cs.seen := by
  cases k <;> rfl

theorem counter_count (cs : CrawlerStats) (k k' : Counter) :
    (cs.count k).counter k' = if k = k' then cs.counter k' + 1 else cs.counter k' := by
  by_cases hk : k = k'
  · subst hk
    cases k <;> simp [CrawlerStats.count, CrawlerStats.counter]
  · rw [if_neg hk]
    cases k <;> cases k' <;> simp_all [CrawlerStats.count, CrawlerStats.counter, eq_comm]

/-! ## Where items are counted -/

/-- The counters that there are. -/
def Counter.all : Finset Counter :=
  {.noexp, .ttlHourplus} ∪ (Finset.range 60).image .histo

/-- **The index into the histogram is below 60**, whatever the clock has done. -/
theorem Counted.counter_mem_all (e : Counted) : e.counter ∈ Counter.all := by
  unfold Counted.counter
  split_ifs with h0 hfar
  · simp [Counter.all]
  · simp [Counter.all]
  · have hle : (e.exptime - e.clock).toNat ≤ 3599 :=
      UInt32.le_iff_toNat_le.1 (UInt32.not_lt.1 hfar)
    have hlt : (e.exptime - e.clock).toNat / 60 < 60 := by omega
    simp [Counter.all, hlt]

theorem sum_all {M : Type} [AddCommMonoid M] (f : Counter → M) :
    ∑ k ∈ Counter.all, f k = f .noexp + f .ttlHourplus + ∑ b ∈ Finset.range 60, f (.histo b) := by
  unfold Counter.all
  rw [Finset.sum_union (by simp [Finset.disjoint_left]), Finset.sum_pair (by simp),
    Finset.sum_image (by simp)]

/-- **An item that has not expired is counted by the time it has left.** -/
theorem Counted.counter_eq_ttlHourplus_iff {e : Counted} (h : e.exptime ≠ 0 → e.clock ≤ e.exptime) :
    e.counter = .ttlHourplus ↔ e.clock.toNat + 3599 < e.exptime.toNat := by
  unfold Counted.counter
  by_cases h0 : e.exptime = 0
  · simp [h0]
  · have hleft : 3599 < e.exptime - e.clock ↔ e.clock.toNat + 3599 < e.exptime.toNat := by
      rw [UInt32.lt_iff_toNat_lt, UInt32.toNat_sub_of_le _ _ (h h0)]
      exact Nat.lt_sub_iff_add_lt'
    rw [if_neg h0, ← hleft]
    split_ifs with hfar <;> simp [hfar]

/-! ## Runs -/

/-- The store, and for each class the items counted since its last start. -/
structure CrawlTally where
  store : Store
  counted : ℕ → List Counted

/-- What happens to the statistics. -/
inductive TallyCall where
  /-- `DoLRUCrawlerStart(id, remaining)`. -/
  | start (id : ℕ) (remaining : UInt32)
  /-- `ItemCrawlerEvaluate(it, hv, i)`, with the clock at `later` when it is read again. -/
  | evaluate (it : Ptr) (hv : UInt32) (i : ℕ) (later : UInt32)
  /-- Everything else: the clock, the items, the end of a crawl. -/
  | other (s : Store)

namespace CrawlTally

variable (r : CrawlTally)

/-- The statistics of class `c`. -/
def stats (c : ℕ) : CrawlerStats := r.store.crawlers.crawlerStats c

/-- **One step.** -/
def exec : TallyCall → CrawlTally
  | .start id remaining =>
    { store := (r.store.doLRUCrawlerStart id remaining).2
      counted := if (r.store.doLRUCrawlerStart id remaining).1 = 0 then r.counted
        else Function.update r.counted id [] }
  | .evaluate it hv i later =>
    { store := r.store.itemCrawlerEvaluateAt later it hv i
      counted := if r.store.isReclaimable it then r.counted
        else Function.update r.counted (clearLru i)
          (⟨r.store.heap.exptime it, later⟩ :: r.counted (clearLru i)) }
  | .other s => { r with store := s }

/-- All statistics are zero, and nothing has been counted. -/
def Init : Prop :=
  (∀ c, (r.stats c).seen = 0 ∧ ∀ k, (r.stats c).counter k = 0) ∧ ∀ c, r.counted c = []

end CrawlTally

/-- The clock does not go back, and other code leaves the counters alone. -/
def TallyCall.Ok (r : CrawlTally) : TallyCall → Prop
  | .start _ _ => True
  | .evaluate _ _ _ later => r.store.now ≤ later
  | .other s => r.store.now ≤ s.now ∧ ∀ c, (s.crawlers.crawlerStats c).seen = (r.stats c).seen ∧
      ∀ k, (s.crawlers.crawlerStats c).counter k = (r.stats c).counter k

/-- The clock does not pass the expiry of an item that was found alive before it is read again, and
the class has counted fewer than `2^64` items with this one. -/
def TallyCall.Timely (r : CrawlTally) : TallyCall → Prop
  | .evaluate it _ i later => ¬ r.store.isReclaimable it →
      (r.store.heap.exptime it ≠ 0 → later ≤ r.store.heap.exptime it) ∧
        (r.counted (clearLru i)).length + 1 < 2 ^ 64
  | _ => True

/-- Any step. -/
def AnyTally (r r' : CrawlTally) : Prop := ∃ call, TallyCall.Ok r call ∧ r' = r.exec call

/-- A step in time. -/
def TimelyTally (r r' : CrawlTally) : Prop :=
  ∃ call, TallyCall.Ok r call ∧ TallyCall.Timely r call ∧ r' = r.exec call

/-- **Every counter is the number of its items**, as far as 64 bits go. -/
structure CrawlTally.Tallies (r : CrawlTally) (c : ℕ) : Prop where
  seen : (r.stats c).seen = UInt64.ofNat (r.counted c).length
  counter : ∀ k, (r.stats c).counter k = UInt64.ofNat (((r.counted c).map Counted.counter).count k)

namespace CrawlTally.Tallies

variable {r r' : CrawlTally} {c : ℕ}

theorem zero (hs : (r.stats c).seen = 0) (hk : ∀ k, (r.stats c).counter k = 0)
    (hc : r.counted c = []) : r.Tallies c := by
  constructor
  · simp [hs, hc]
  · intro k
    simp [hk, hc]

theorem keep (h : r.Tallies c) (hs : (r'.stats c).seen = (r.stats c).seen)
    (hk : ∀ k, (r'.stats c).counter k = (r.stats c).counter k) (hc : r'.counted c = r.counted c) :
    r'.Tallies c := by
  constructor
  · rw [hs, hc, h.seen]
  · intro k
    rw [hk, hc, h.counter]

theorem keep_stats (h : r.Tallies c) (hs : r'.stats c = r.stats c)
    (hc : r'.counted c = r.counted c) : r'.Tallies c :=
  h.keep (by rw [hs]) (fun k => by rw [hs]) hc

theorem add (h : r.Tallies c) {e : Counted}
    (hs : r'.stats c = { r.stats c with seen := (r.stats c).seen + 1 }.count e.counter)
    (hc : r'.counted c = e :: r.counted c) : r'.Tallies c := by
  constructor
  · rw [hs, hc, seen_count, h.seen, List.length_cons, UInt64.ofNat_add]
    rfl
  · intro k
    have hk : ({ r.stats c with seen := (r.stats c).seen + 1 } : CrawlerStats).counter k =
        (r.stats c).counter k := by
      cases k <;> rfl
    rw [hs, hc, counter_count, hk, h.counter, List.map_cons, List.count_cons]
    by_cases he : e.counter = k
    · simp [he, UInt64.ofNat_add]
    · simp [he]

/-- **A start** resets the statistics of its class, or starts nothing. -/
theorem start (h : r.Tallies c) (id : ℕ) (remaining : UInt32) :
    (r.exec (.start id remaining)).Tallies c := by
  obtain ⟨n, t, hq, ⟨h0, he⟩ | ⟨h0, st, he⟩⟩ := doLRUCrawlerStart_cases r.store id remaining
  · apply h.keep_stats
    · simp only [exec, stats, he, hq.crawlerStats]
    · simp only [exec, he, if_pos h0]
  · have hst : (r.exec (.start id remaining)).stats c =
        if id = c then { CrawlerStats.zero with startTime := t.now } else r.stats c := by
      simp only [exec, stats, he, bumpCrawl_stats, hq.crawlerStats]
    have hco : (r.exec (.start id remaining)).counted c = if id = c then [] else r.counted c := by
      simp only [exec, he, if_neg h0, Function.update_apply, eq_comm]
    by_cases hid : id = c
    · rw [if_pos hid] at hst hco
      apply zero _ _ hco
      · rw [hst]
        rfl
      · intro k
        rw [hst]
        cases k <;> rfl
    · rw [if_neg hid] at hst hco
      exact h.keep_stats hst hco

/-- **An evaluation** counts the item in its class, or reclaims it. -/
theorem evaluate (h : r.Tallies c) (it : Ptr) (hv : UInt32) (i : ℕ) (later : UInt32) :
    (r.exec (.evaluate it hv i later)).Tallies c := by
  by_cases hr : r.store.isReclaimable it
  · have hst := evaluateAt_dead hr later hv i c
    apply h.keep
    · simp only [exec, stats, hst]
      split_ifs <;> rfl
    · intro k
      simp only [exec, stats, hst]
      split_ifs <;> cases k <;> rfl
    · simp only [exec, if_pos hr]
  · have hst := evaluateAt_live hr later hv i c
    by_cases hc : clearLru i = c
    · apply h.add (e := ⟨r.store.heap.exptime it, later⟩)
      · simp only [exec, stats, hst, if_pos hc]
      · simp only [exec, if_neg hr, hc, Function.update_self]
    · apply h.keep_stats
      · simp only [exec, stats, hst, if_neg hc]
      · simp only [exec, if_neg hr, Function.update_of_ne (Ne.symm hc)]

end CrawlTally.Tallies

/-- **In every run the counters are the numbers of the items counted.** -/
theorem tallies_of_reach {r : CrawlTally} (h : Reach CrawlTally.Init AnyTally r) (c : ℕ) :
    r.Tallies c := by
  induction h with
  | start h => exact .zero (h.1 c).1 (h.1 c).2 (h.2 c)
  | next _ ht ih =>
    obtain ⟨call, hok, rfl⟩ := ht
    cases call with
    | start id remaining => exact ih.start id remaining
    | evaluate it hv i later => exact ih.evaluate it hv i later
    | other s => exact ih.keep (hok.2 c).1 (hok.2 c).2 rfl

/-- A class has counted few items, each before it expired. -/
structure CrawlTally.InTime (r : CrawlTally) (c : ℕ) : Prop where
  few : (r.counted c).length < 2 ^ 64
  alive : ∀ e ∈ r.counted c, e.exptime ≠ 0 → e.clock ≤ e.exptime

/-- What a step does to the items of a class. -/
theorem counted_exec (r : CrawlTally) (call : TallyCall) (c : ℕ) :
    (r.exec call).counted c = r.counted c ∨ (r.exec call).counted c = [] ∨
      ∃ it hv i later, call = .evaluate it hv i later ∧ ¬ r.store.isReclaimable it ∧
        clearLru i = c ∧
        (r.exec call).counted c = ⟨r.store.heap.exptime it, later⟩ :: r.counted c := by
  cases call with
  | start id remaining =>
    by_cases hid : id = c
    · simp only [CrawlTally.exec]
      split_ifs <;> simp [hid]
    · simp only [CrawlTally.exec]
      split_ifs <;> simp [Function.update_of_ne (Ne.symm hid)]
  | evaluate it hv i later =>
    by_cases hr : r.store.isReclaimable it
    · simp [CrawlTally.exec, hr]
    · by_cases hid : clearLru i = c
      · right
        right
        exact ⟨it, hv, i, later, rfl, hr, hid, by simp [CrawlTally.exec, hr, hid]⟩
      · simp [CrawlTally.exec, hr, Function.update_of_ne (Ne.symm hid)]
  | other s => simp [CrawlTally.exec]

theorem CrawlTally.InTime.exec {r : CrawlTally} {c : ℕ} (h : r.InTime c) {call : TallyCall}
    (ht : TallyCall.Timely r call) : (r.exec call).InTime c := by
  rcases counted_exec r call c with hc | hc | ⟨it, hv, i, later, rfl, hr, hid, hc⟩
  · exact ⟨hc ▸ h.few, hc ▸ h.alive⟩
  · constructor <;> simp [hc]
  · have hlate := ht hr
    rw [hid] at hlate
    constructor
    · rw [hc]
      exact hlate.2
    · rw [hc]
      simpa using ⟨hlate.1, h.alive⟩

theorem inTime_of_reach {r : CrawlTally} (h : Reach CrawlTally.Init TimelyTally r) (c : ℕ) :
    r.InTime c := by
  induction h with
  | start h => constructor <;> simp [h.2 c]
  | next _ ht ih =>
    obtain ⟨call, -, htime, rfl⟩ := ht
    exact ih.exec htime

/-- In a run in time nothing wraps. -/
theorem toNat_of_reach {r : CrawlTally} (h : Reach CrawlTally.Init TimelyTally r) (c : ℕ) :
    (r.stats c).seen.toNat = (r.counted c).length ∧
      ∀ k, ((r.stats c).counter k).toNat = ((r.counted c).map Counted.counter).count k := by
  have hfew := (inTime_of_reach h c).few
  have htal : r.Tallies c := by
    apply tallies_of_reach (h.mono _) c
    rintro s t ⟨call, hok, -, ht⟩
    exact ⟨call, hok, ht⟩
  constructor
  · rw [htal.seen, UInt64.toNat_ofNat_of_lt' hfew]
  · intro k
    have hle : ((r.counted c).map Counted.counter).count k ≤ (r.counted c).length := by
      simpa using List.count_le_length (a := k) (l := (r.counted c).map Counted.counter)
    rw [htal.counter, UInt64.toNat_ofNat_of_lt' (hle.trans_lt hfew)]

theorem sum_count_counter (l : List Counted) :
    ∑ k ∈ Counter.all, (l.map Counted.counter).count k = l.length := by
  have h := Multiset.sum_count_eq_card (s := Counter.all) (m := ↑(l.map Counted.counter)) ?_
  · simpa using h
  · intro k hk
    obtain ⟨e, -, rfl⟩ := List.mem_map.1 (Multiset.mem_coe.1 hk)
    exact e.counter_mem_all

/-- **Crawl statistics are conserved** in every run in time: the counters of a class add up to `seen`,
only the first 60 buckets are used, `possible_reclaims` does not wrap, and `ttl_hourplus` is the
number of items that had more than 3599 seconds left when the clock was read to count them. -/
theorem crawl_stats_conserved {r : CrawlTally} (h : Reach CrawlTally.Init TimelyTally r) (c : ℕ) :
    (r.stats c).seen.toNat = (r.stats c).noexp.toNat + (r.stats c).ttlHourplus.toNat +
      ∑ b ∈ Finset.range 60, ((r.stats c).histo b).toNat ∧
    (∀ b, 60 ≤ b → (r.stats c).histo b = 0) ∧
    (∀ e ∈ r.counted c, ∀ b, e.counter = .histo b → b < 60) ∧
    (r.stats c).possibleReclaims.toNat = (r.stats c).seen.toNat - (r.stats c).noexp.toNat ∧
    (r.stats c).noexp ≤ (r.stats c).seen ∧
    (r.stats c).ttlHourplus.toNat =
      (r.counted c).countP fun e => e.clock.toNat + 3599 < e.exptime.toNat := by
  obtain ⟨hseen, hcounter⟩ := toNat_of_reach h c
  have halive := (inTime_of_reach h c).alive
  have hsum : (r.stats c).seen.toNat = (r.stats c).noexp.toNat + (r.stats c).ttlHourplus.toNat +
      ∑ b ∈ Finset.range 60, ((r.stats c).histo b).toNat := by
    calc (r.stats c).seen.toNat
        = ∑ k ∈ Counter.all, ((r.counted c).map Counted.counter).count k := by
          rw [hseen, sum_count_counter]
      _ = ∑ k ∈ Counter.all, ((r.stats c).counter k).toNat := by simp only [hcounter]
      _ = _ := sum_all fun k => ((r.stats c).counter k).toNat
  have hle : (r.stats c).noexp ≤ (r.stats c).seen := by
    rw [UInt64.le_iff_toNat_le]
    omega
  have hindex : ∀ e ∈ r.counted c, ∀ b, e.counter = .histo b → b < 60 := by
    intro e _ b hb
    have hmem := e.counter_mem_all
    rw [hb] at hmem
    simpa [Counter.all] using hmem
  refine ⟨hsum, ?_, hindex, UInt64.toNat_sub_of_le _ _ hle, hle, ?_⟩
  · intro b hb
    rw [← UInt64.toNat_inj]
    refine (hcounter (.histo b)).trans (List.count_eq_zero.2 ?_)
    intro hmem
    obtain ⟨e, he, heb⟩ := List.mem_map.1 hmem
    have := hindex e he b heb
    omega
  · refine (hcounter .ttlHourplus).trans ?_
    rw [List.count, List.countP_map]
    apply List.countP_congr
    intro e he
    simpa using Counted.counter_eq_ttlHourplus_iff (halive e he)

/-- The clock is at 10, and so is the expiry of every item. -/
def atExpiry : CrawlTally where
  store := { Store.initial 1 (fun _ => 0) (.initial 0) .failing with
    now := 10, heap := { Heap.zero with exptime := fun _ => 10 } }
  counted _ := []

theorem atExpiry_init : atExpiry.Init := by
  refine ⟨fun c => ⟨rfl, fun k => ?_⟩, fun c => rfl⟩
  cases k <;> rfl

/-- An item is counted at the last moment. -/
theorem crawl_stats_conserved_last : ∃ r : CrawlTally, Reach CrawlTally.Init TimelyTally r ∧
    (r.stats 1).seen = 1 ∧
    (r.stats 1).seen.toNat = (r.stats 1).noexp.toNat + (r.stats 1).ttlHourplus.toNat +
      ∑ b ∈ Finset.range 60, ((r.stats 1).histo b).toNat := by
  have h0 : Reach CrawlTally.Init TimelyTally atExpiry := .start atExpiry_init
  have hle : (10 : UInt32) ≤ 10 := by decide
  have h := h0.next
    ⟨.evaluate (.chunk 64) 0 1 10, hle, fun _ => ⟨fun _ => hle, by decide⟩, rfl⟩
  exact ⟨_, h, by decide, (crawl_stats_conserved h 1).1⟩

/-- **The difference wraps**: the item expires at 10 and is found alive at 10; a second later it is
counted among those with more than an hour left. -/
theorem crawl_stats_wrap : ∃ r : CrawlTally, Reach CrawlTally.Init AnyTally r ∧
    r.counted 1 = [⟨10, 11⟩] ∧ (r.stats 1).ttlHourplus = 1 ∧
    ((r.counted 1).countP fun e => e.clock.toNat + 3599 < e.exptime.toNat) = 0 := by
  have h0 : Reach CrawlTally.Init AnyTally atExpiry := .start atExpiry_init
  have hle : (10 : UInt32) ≤ 11 := by decide
  have h := h0.next ⟨.evaluate (.chunk 64) 0 1 11, hle, rfl⟩
  exact ⟨_, h, by decide, by decide, by decide⟩

end Mdb
