import Mdb.Util
import Mdb.Store.CrawlRuns
import Mdb.Store.LockCalls

/-!
# Crawl requests

The argument of `LRUCrawl`: `all`, or numbers of slab classes between commas.

* `CrawlList.parse`: how it is read; `IsClass`: a token is the numeral of a slab class;
* `crawled queue sids`: the queues with a crawler at the end of each of `sids` that is not empty;
* `Store.Starts`: that was done, and counted; `Store.Starts.crawlClasses`: by the loop over the
  classes, as long as none of those crawlers is in a queue already;
* `CrawlExact`: a request with a token that is no class is turned down and changes nothing, and any
  other starts a crawl of the classes it names;
* **`crawl_request_iff`**: when that is so. The top class is turned down, and a number that is cut to
  32 bits can pass for a class; a crawler that is in its queue already is linked again.
-/

namespace Mdb

open CText Locks

/-! ## Reading the request -/

/-- `','`. -/
def comma : UInt8 := 44

/-- The tokens that `LRUCrawl` finds in its argument. -/
def CString.tokens (slabs : CString) : List (List UInt8) := CText.tokens comma slabs.bytes

/-- `sid`, if `safe_strtoul` accepts the token. -/
def readSid (p : List UInt8) : Option ℕ :=
  if (safeStrtoul p).1 then some (safeStrtoul p).2.toNat else none

/-- What `LRUCrawl` makes of its argument. -/
def Store.CrawlList.parse (slabs : CString) : CrawlList :=
  if slabs.bytes = textBytes "all".toList then .all else .tokens (slabs.tokens.map readSid)

/-! ## What a request means -/

/-- The token is the numeral of a class that `InitSlabs` can create. -/
def IsClass (p : List UInt8) : Prop :=
  ∃ v : ℤ, IsNumeral p v ∧ (powerSmallest : ℤ) ≤ v ∧ v ≤ maxNumberOfSlabClasses - 1

/-- A token names class `c`. -/
def CString.names (slabs : CString) (c : ℕ) : Bool := slabs.tokens.any fun p => IsNumeral p c

/-- The `HOT`, `WARM` and `COLD` queues of the classes that are named. -/
def CString.namedQueues (slabs : CString) : List ℕ :=
  (Store.crawlable.filter slabs.names).flatMap Store.tocrawl

/-- A crawler is added to each of the queues `sids` that is not empty. -/
def crawled (queue : ℕ → List Ptr) (sids : List ℕ) (q : ℕ) : List Ptr :=
  if q ∈ sids ∧ queue q ≠ [] then queue q ++ [.crawler q] else queue q

/-- How many those are. -/
def startable (queue : ℕ → List Ptr) (sids : List ℕ) : ℕ := sids.countP fun q => queue q ≠ []

/-- **The request is dealt with exactly**: it is turned down, nothing is changed and the lock is given
back, if and only if some token is not the numeral of a class; otherwise one crawler is linked to each
queue of the classes that is not empty, and the answer says whether there was one. -/
structure CrawlExact (s : Store) (queue : ℕ → List Ptr) (slabs : CString) : Prop where
  badclass : ((s.lruCrawl (.parse slabs)).1 = .badclass ∧ (s.lruCrawl (.parse slabs)).2 = s ∧
      Disciplined [] (s.lruCrawlTrace (.parse slabs) true)) ↔ ∃ p ∈ slabs.tokens, ¬ IsClass p
  starts : (∀ p ∈ slabs.tokens, IsClass p) →
    (s.lruCrawl (.parse slabs)).2.Queues (crawled queue slabs.namedQueues) ∧
    (s.lruCrawl (.parse slabs)).2.crawlers.crawlerCount =
      s.crawlers.crawlerCount + startable queue slabs.namedQueues ∧
    (s.lruCrawl (.parse slabs)).1 =
      if startable queue slabs.namedQueues = 0 then .notstarted else .ok

/-! ## Linking crawlers -/

/-- None of the crawlers that would be linked is in a queue. -/
def CrawlersFree (queue : ℕ → List Ptr) (sids : List ℕ) : Prop :=
  ∀ q ∈ sids, queue q ≠ [] → ∀ q', .crawler q ∉ queue q'

theorem crawled_of_not_mem {queue : ℕ → List Ptr} {sids : List ℕ} {q : ℕ} (h : q ∉ sids) :
    crawled queue sids q = queue q := if_neg fun hq => h hq.1

theorem crawled_append {queue : ℕ → List Ptr} {a b : List ℕ} (h : ∀ q ∈ b, q ∉ a) :
    crawled (crawled queue a) b = crawled queue (a ++ b) := by
  funext q
  by_cases hb : q ∈ b
  · simp [crawled, hb, h q hb]
  · rw [crawled_of_not_mem hb]
    simp [crawled, hb]

theorem startable_append {queue : ℕ → List Ptr} {a b : List ℕ} (h : ∀ q ∈ b, q ∉ a) :
    startable queue a + startable (crawled queue a) b = startable queue (a ++ b) := by
  unfold startable
  rw [List.countP_append, Nat.add_right_inj]
  apply List.countP_congr
  intro q hq
  rw [crawled_of_not_mem (h q hq)]

theorem CrawlersFree.crawled {queue : ℕ → List Ptr} {a b : List ℕ}
    (hf : CrawlersFree queue (a ++ b)) (h : ∀ q ∈ b, q ∉ a) :
    CrawlersFree (crawled queue a) b := by
  intro q hq hne q' hmem
  rw [crawled_of_not_mem (h q hq)] at hne
  have hnot := hf q (List.mem_append_right _ hq) hne q'
  unfold Mdb.crawled at hmem
  split_ifs at hmem with hc
  · rcases List.mem_append.1 hmem with hm | hm
    · exact hnot hm
    · have hqq : q = q' := by simpa using hm
      exact h q hq (hqq ▸ hc.1)
  · exact hnot hmem

/-- **One of the crawlers was in a queue already**: then the lists with the new ones are those of no
store. -/
theorem crawlersFree_of_queues {t : Store} {queue : ℕ → List Ptr} {sids : List ℕ}
    (h : t.Queues (crawled queue sids)) : CrawlersFree queue sids := by
  intro q hq hne q' hmem
  have hlink : crawled queue sids q = queue q ++ [.crawler q] := if_pos ⟨hq, hne⟩
  have hmem' : .crawler q ∈ crawled queue sids q' := by
    unfold crawled
    split_ifs
    · exact List.mem_append_left _ hmem
    · exact hmem
  have hqq : q' = q := h.disjoint q' q _ hmem' (by simp [hlink])
  have hnd := (h.dll q).nodup
  rw [hlink, List.nodup_append] at hnd
  exact hnd.2.2 _ (hqq ▸ hmem) _ (by simp) rfl

/-- **Crawlers were linked** to the queues `sids`, `n` of them, and counted. -/
structure Store.Starts (s t : Store) (queue : ℕ → List Ptr) (sids : List ℕ) (n : ℕ) : Prop where
  queues : t.Queues (crawled queue sids)
  starts : n = startable queue sids
  count : t.crawlers.crawlerCount = s.crawlers.crawlerCount + n

namespace Store.Starts

variable {s t u : Store} {queue : ℕ → List Ptr} {a b : List ℕ} {m n : ℕ}

theorem nil (h : s.Queues queue) : Starts s s queue [] 0 where
  queues := by
    have : Mdb.crawled queue [] = queue := by
      funext q
      simp [Mdb.crawled]
    rwa [this]
  starts := by simp [startable]
  count := by simp

theorem append (h : Starts s t queue a m) (h' : Starts t u (Mdb.crawled queue a) b n)
    (hab : ∀ q ∈ b, q ∉ a) : Starts s u queue (a ++ b) (m + n) where
  queues := by
    rw [← crawled_append hab]
    exact h'.queues
  starts := by rw [h.starts, h'.starts, startable_append hab]
  count := by
    rw [h'.count, h.count]
    push_cast
    ring

/-- **One crawler.** -/
theorem linkCrawler (h : s.Queues queue) {sid : ℕ} (hne : queue sid ≠ [])
    (hfree : ∀ q, .crawler sid ∉ queue q) (remaining : UInt32) :
    Starts s (s.linkCrawler sid remaining) queue [sid] 1 := by
  obtain ⟨s₁, hs₁, hlink⟩ : ∃ s₁ : Store, (s₁.Queues queue ∧ s₁.heap.slabsClsid (.crawler sid) = sid ∧
      s₁.crawlers.crawlerCount = s.crawlers.crawlerCount + 1) ∧
      s.linkCrawler sid remaining = s₁.doItemLinkQ (.crawler sid) true := by
    refine ⟨_, ⟨?_, ?_, rfl⟩, rfl⟩
    · apply QueuesOk.congr h
      intro q x hx
      have hx' : x ≠ .crawler sid := ne_of_mem_of_not_mem hx (hfree q)
      exact ⟨Function.update_of_ne hx' _ _, Function.update_of_ne hx' _ _⟩
    · exact Function.update_self _ _ _
  have hq := QueuesOk.linkQ hs₁.1 hfree
  rw [hs₁.2.1] at hq
  have hcr : Mdb.crawled queue [sid] = Function.update queue sid (queue sid ++ [.crawler sid]) := by
    funext q
    by_cases e : q = sid
    · subst e
      simp [Mdb.crawled, hne]
    · simp [Mdb.crawled, e]
  constructor
  · rw [hcr, hlink]
    exact hq
  · simp [startable, hne]
  · rw [hlink]
    exact hs₁.2.2

/-- **The loop of `DoLRUCrawlerStart`.** -/
theorem startQueues (remaining : UInt32) {sids : List ℕ} (hnd : sids.Nodup) (h : s.Queues queue)
    (hfree : CrawlersFree queue sids) (n : ℕ) :
    ∃ m t, sids.foldl (startQueue remaining) (n, s) = (n + m, t) ∧ Starts s t queue sids m := by
  induction sids generalizing s queue n with
  | nil => exact ⟨0, s, rfl, nil h⟩
  | cons sid sids ih =>
    rw [List.nodup_cons] at hnd
    have hdis : ∀ q ∈ sids, q ∉ [sid] := by
      intro q hq hsid
      rw [List.mem_singleton] at hsid
      exact hnd.1 (hsid ▸ hq)
    have hrest : CrawlersFree (Mdb.crawled queue [sid]) sids := CrawlersFree.crawled hfree hdis
    have htail : s.lru.tails sid = none ↔ queue sid = [] := by
      rw [(h.dll sid).tail_eq, List.getLast?_eq_none_iff]
    rw [List.foldl_cons, startQueue]
    by_cases hne : queue sid = []
    · have hkeep : Starts s s queue [sid] 0 := by
        have hcr : Mdb.crawled queue [sid] = queue := by
          funext q
          by_cases e : q = sid
          · simp [Mdb.crawled, e, hne]
          · simp [Mdb.crawled, e]
        exact ⟨by rwa [hcr], by simp [startable, hne], by simp⟩
      rw [if_pos (htail.2 hne)]
      obtain ⟨m, t, hm, ht⟩ := ih hnd.2 hkeep.queues hrest n
      exact ⟨0 + m, t, by rw [hm, Nat.zero_add], hkeep.append ht hdis⟩
    · have hlink := linkCrawler h hne (hfree sid List.mem_cons_self hne) remaining
      rw [if_neg (mt htail.1 hne)]
      obtain ⟨m, t, hm, ht⟩ := ih hnd.2 hlink.queues hrest (n + 1)
      exact ⟨1 + m, t, by rw [hm, Nat.add_assoc], hlink.append ht hdis⟩

/-- **`DoLRUCrawlerStart`.** -/
theorem doLRUCrawlerStart {id : ℕ} (hid : id < maxNumberOfSlabClasses) (h : s.Queues queue)
    (hfree : CrawlersFree queue (tocrawl id)) (remaining : UInt32) :
    ∃ m t, s.doLRUCrawlerStart id remaining = (m, t) ∧ Starts s t queue (tocrawl id) m := by
  obtain ⟨m, t, hm, ht⟩ := startQueues remaining (Inv.tocrawl_nodup hid) h hfree 0
  rw [Nat.zero_add] at hm
  by_cases h0 : m = 0
  · exact ⟨m, t, by simp only [Store.doLRUCrawlerStart, hm, if_pos h0], ht⟩
  · refine ⟨m, (s.doLRUCrawlerStart id remaining).2, ?_, ?_⟩
    · simp only [Store.doLRUCrawlerStart, hm, if_neg h0]
    · simp only [Store.doLRUCrawlerStart, hm, if_neg h0]
      exact ⟨ht.queues, ht.starts, ht.count⟩

/-- **The loop of `LRUCrawl` over the classes.** -/
theorem crawlClasses (f : ℕ → Bool) {cs : List ℕ} (hnd : cs.Nodup)
    (hlt : ∀ c ∈ cs, c < maxNumberOfSlabClasses) (h : s.Queues queue)
    (hfree : CrawlersFree queue ((cs.filter f).flatMap tocrawl)) (n : ℕ) :
    ∃ m t, cs.foldl (crawlClass f) (n, s) = (n + m, t) ∧
      Starts s t queue ((cs.filter f).flatMap tocrawl) m := by
  induction cs generalizing s queue n with
  | nil => exact ⟨0, s, rfl, nil h⟩
  | cons c cs ih =>
    rw [List.nodup_cons] at hnd
    have hlt' : ∀ c' ∈ cs, c' < maxNumberOfSlabClasses :=
      fun c' hc' => hlt c' (List.mem_cons_of_mem _ hc')
    rw [List.foldl_cons, crawlClass]
    by_cases hc : f c = true
    · rw [List.filter_cons_of_pos hc, List.flatMap_cons] at hfree ⊢
      -- queues of different classes are different
      have hdis : ∀ q ∈ (cs.filter f).flatMap tocrawl, q ∉ tocrawl c := by
        intro q hq hqc
        obtain ⟨c', hc', hq'⟩ := List.mem_flatMap.1 hq
        have hmem := (List.mem_filter.1 hc').1
        have heq : c' = c := (Inv.tocrawl_clearLru (hlt' c' hmem) q hq').symm.trans
          (Inv.tocrawl_clearLru (hlt c List.mem_cons_self) q hqc)
        exact hnd.1 (heq ▸ hmem)
      have hfirst : CrawlersFree queue (tocrawl c) := fun q hq => hfree q (List.mem_append_left _ hq)
      obtain ⟨m, t, hm, ht⟩ := doLRUCrawlerStart (hlt c List.mem_cons_self) h hfirst
        s.settings.lruCrawlerTocrawl
      obtain ⟨m', t', hm', ht'⟩ := ih hnd.2 hlt' ht.queues (hfree.crawled hdis) (n + m)
      refine ⟨m + m', t', ?_, ht.append ht' hdis⟩
      simp only [hc, if_true, hm, hm', Nat.add_assoc]
    · rw [List.filter_cons_of_neg hc] at hfree ⊢
      rw [if_neg hc]
      exact ih hnd.2 hlt' h hfree n

end Store.Starts

/-! ## Tokens -/

/-- The numeral of a class below the top one. -/
def Fits (p : List UInt8) : Prop :=
  ∃ v : ℤ, IsNumeral p v ∧ (powerSmallest : ℤ) ≤ v ∧ v < maxNumberOfSlabClasses - 1

/-- The numeral of the top class. -/
def IsTop (p : List UInt8) : Prop := IsNumeral p (maxNumberOfSlabClasses - 1)

instance (p : List UInt8) : Decidable (IsTop p) := inferInstanceAs (Decidable (IsNumeral p _))

/-- A numeral outside 32 bits that `safe_strtoul` accepts and cuts to the number of a class below the
top one. -/
def Wraps (p : List UInt8) : Prop :=
  ∃ v : ℤ, IsNumeral p v ∧
    (2 ^ 32 ≤ v ∧ v < 2 ^ 64 ∧ (v < 2 ^ 63 ∨ minus ∉ p) ∨ -2 ^ 64 < v ∧ v < -2 ^ 63) ∧
    (powerSmallest : ℤ) ≤ v % 2 ^ 32 ∧ v % 2 ^ 32 < maxNumberOfSlabClasses - 1

/-- The test of `LRUCrawl` on a token. -/
def InRange (sid : Option ℕ) : Prop :=
  ∃ n, sid = some n ∧ powerSmallest ≤ n ∧ n < maxNumberOfSlabClasses - 1

theorem readSid_numeral {p : List UInt8} {v : ℤ} (h : IsNumeral p v) :
    readSid p = if (-2 ^ 64 < v ∧ v < 2 ^ 64) ∧ ¬ (2 ^ 63 ≤ v % 2 ^ 64 ∧ minus ∈ p)
      then some (v % 2 ^ 32).toNat else none := by
  have hcut := toNat_toUInt32_ofInt v
  rw [readSid, safeStrtoul, unsigned_numeral _ h]
  by_cases hc : (-2 ^ 64 < v ∧ v < 2 ^ 64) ∧ ¬ (2 ^ 63 ≤ v % 2 ^ 64 ∧ minus ∈ p)
  · rw [if_pos hc, if_pos hc, ← hcut, Int.toNat_natCast]
    rfl
  · rw [if_neg hc, if_neg hc]
    rfl

theorem readSid_not_numeral {p : List UInt8} (h : ∀ v, ¬ IsNumeral p v) : readSid p = none := by
  rw [readSid, safeStrtoul, unsigned_not_numeral _ h]
  rfl

theorem readSid_fits {p : List UInt8} {v : ℤ} (h : IsNumeral p v) (hlo : 0 ≤ v) (hhi : v < 2 ^ 32) :
    readSid p = some v.toNat := by
  rw [readSid_numeral h, if_pos (by omega), Int.emod_eq_of_lt hlo hhi]

/-- **Which tokens `LRUCrawl` takes for a class.** -/
theorem inRange_readSid_iff (p : List UInt8) : InRange (readSid p) ↔ Fits p ∨ Wraps p := by
  by_cases hn : ∃ v, IsNumeral p v
  · obtain ⟨v, hv⟩ := hn
    have hfits : Fits p ↔ 1 ≤ v ∧ v < 63 := hv.exists_iff
    have hwraps : Wraps p ↔ (2 ^ 32 ≤ v ∧ v < 2 ^ 64 ∧ (v < 2 ^ 63 ∨ minus ∉ p) ∨
        -2 ^ 64 < v ∧ v < -2 ^ 63) ∧ 1 ≤ v % 2 ^ 32 ∧ v % 2 ^ 32 < 63 := hv.exists_iff
    have hrange : InRange (readSid p) ↔ ((-2 ^ 64 < v ∧ v < 2 ^ 64) ∧
        ¬ (2 ^ 63 ≤ v % 2 ^ 64 ∧ minus ∈ p)) ∧ 1 ≤ v % 2 ^ 32 ∧ v % 2 ^ 32 < 63 := by
      rw [readSid_numeral hv]
      by_cases hc : (-2 ^ 64 < v ∧ v < 2 ^ 64) ∧ ¬ (2 ^ 63 ≤ v % 2 ^ 64 ∧ minus ∈ p)
      · rw [if_pos hc, and_iff_right hc]
        simp only [InRange, Option.some.injEq, exists_eq_left', powerSmallest, maxNumberOfSlabClasses]
        omega
      · rw [if_neg hc]
        constructor
        · rintro ⟨n, hnone, -⟩
          cases hnone
        · intro h
          exact absurd h.1 hc
    rw [hfits, hwraps, hrange]
    by_cases hm : minus ∈ p
    · simp only [hm, and_true, not_true_eq_false, or_false]
      omega
    · have hpos : 0 ≤ v := by
        by_contra hneg
        exact hm (hv.minus_mem (by omega))
      simp only [hm, and_false, not_false_eq_true, and_true, or_true]
      omega
  · push Not at hn
    rw [readSid_not_numeral hn]
    constructor
    · rintro ⟨n, hnone, -⟩
      cases hnone
    · rintro (⟨v, hv, -⟩ | ⟨v, hv, -⟩)
      · exact absurd hv (hn v)
      · exact absurd hv (hn v)

theorem isClass_iff (p : List UInt8) : IsClass p ↔ Fits p ∨ IsTop p := by
  constructor
  · rintro ⟨v, hv, hlo, hhi⟩
    rcases hhi.lt_or_eq with h | h
    · exact .inl ⟨v, hv, hlo, h⟩
    · right
      rwa [IsTop, ← h]
  · rintro (⟨v, hv, hlo, hhi⟩ | h)
    · exact ⟨v, hv, hlo, hhi.le⟩
    · exact ⟨_, h, by decide, le_rfl⟩

theorem IsTop.not_fits {p : List UInt8} (h : IsTop p) : ¬ Fits p := by
  rintro ⟨v, hv, -, hhi⟩
  rw [hv.unique h] at hhi
  exact lt_irrefl _ hhi

theorem IsTop.not_wraps {p : List UInt8} (h : IsTop p) : ¬ Wraps p := by
  rintro ⟨v, hv, hbig, -⟩
  rw [hv.unique h] at hbig
  simp [maxNumberOfSlabClasses] at hbig

theorem Wraps.not_isClass {p : List UInt8} (h : Wraps p) : ¬ IsClass p := by
  obtain ⟨v, hv, hbig, -⟩ := h
  rintro ⟨w, hw, hlo, hhi⟩
  rw [hv.unique hw] at hbig
  simp only [powerSmallest, maxNumberOfSlabClasses] at hlo hhi
  omega

/-! ## The loop over the tokens -/

/-- One round of the loop: `tocrawl[sid] = 1`, or the end at a bad class. -/
def markSid (f : ℕ → Bool) (sid : Option ℕ) : Option (ℕ → Bool) := do
  let sid ← sid
  if sid < powerSmallest ∨ maxNumberOfSlabClasses - 1 ≤ sid then none
  else some (Function.update f sid true)

theorem classes_tokens (sids : List (Option ℕ)) :
    (Store.CrawlList.tokens sids).classes = sids.foldlM markSid fun _ => false := rfl

theorem InRange.exists_eq {sid : Option ℕ} (h : InRange sid) : ∃ n, sid = some n := by
  obtain ⟨n, hn, -⟩ := h
  exact ⟨n, hn⟩

theorem markSid_of_inRange (f : ℕ → Bool) {n : ℕ} (h : InRange (some n)) :
    markSid f (some n) = some (Function.update f n true) := by
  obtain ⟨m, hm, hlo, hhi⟩ := h
  cases hm
  exact if_neg (by omega)

theorem markSid_of_not_inRange (f : ℕ → Bool) {sid : Option ℕ} (h : ¬ InRange sid) :
    markSid f sid = none := by
  cases sid with
  | none => rfl
  | some n =>
    apply if_pos
    by_contra hc
    exact h ⟨n, rfl, by omega⟩

/-- All tokens pass: their classes are marked. -/
theorem foldlM_markSid (f : ℕ → Bool) {sids : List (Option ℕ)} (h : ∀ sid ∈ sids, InRange sid) :
    sids.foldlM markSid f = some fun c => f c || decide (some c ∈ sids) := by
  induction sids generalizing f with
  | nil =>
    simp only [List.foldlM_nil, List.not_mem_nil, decide_false, Bool.or_false]
    rfl
  | cons sid sids ih =>
    have hsid : InRange sid := h sid List.mem_cons_self
    obtain ⟨n, rfl⟩ := hsid.exists_eq
    rw [List.foldlM_cons, markSid_of_inRange f hsid]
    refine (ih _ fun sid' hs => h sid' (List.mem_cons_of_mem _ hs)).trans ?_
    congr 1
    funext c
    by_cases e : c = n
    · simp [e]
    · simp [e]

/-- A token does not pass: the loop ends. -/
theorem foldlM_markSid_none (f : ℕ → Bool) {sids : List (Option ℕ)}
    (h : ∃ sid ∈ sids, ¬ InRange sid) : sids.foldlM markSid f = none := by
  induction sids generalizing f with
  | nil => simp at h
  | cons sid sids ih =>
    rw [List.foldlM_cons]
    by_cases hsid : InRange sid
    · have hrest : ∃ sid' ∈ sids, ¬ InRange sid' := by
        obtain ⟨sid', hm, hn⟩ := h
        rcases List.mem_cons.1 hm with rfl | hm
        · exact absurd hsid hn
        · exact ⟨sid', hm, hn⟩
      obtain ⟨n, rfl⟩ := hsid.exists_eq
      rw [markSid_of_inRange f hsid]
      exact ih _ hrest
    · rw [markSid_of_not_inRange f hsid]
      rfl

/-! ## The request -/

section
variable {slabs : CString} (hall : slabs.bytes ≠ textBytes "all".toList)
include hall

theorem parse_eq : Store.CrawlList.parse slabs = .tokens (slabs.tokens.map readSid) := if_neg hall

theorem classes_parse_none (h : ∃ p ∈ slabs.tokens, ¬ (Fits p ∨ Wraps p)) :
    (Store.CrawlList.parse slabs).classes = none := by
  rw [parse_eq hall, classes_tokens]
  apply foldlM_markSid_none
  obtain ⟨p, hp, hn⟩ := h
  exact ⟨readSid p, List.mem_map_of_mem hp, mt (inRange_readSid_iff p).1 hn⟩

theorem classes_parse_some (h : ∀ p ∈ slabs.tokens, Fits p ∨ Wraps p) :
    (Store.CrawlList.parse slabs).classes =
      some fun c => decide (some c ∈ slabs.tokens.map readSid) := by
  rw [parse_eq hall, classes_tokens, foldlM_markSid _ ?_]
  · simp only [Bool.false_or]
  · intro sid hsid
    obtain ⟨p, hp, rfl⟩ := List.mem_map.1 hsid
    exact (inRange_readSid_iff p).2 (h p hp)

/-- **When a request is turned down.** -/
theorem lruCrawl_badclass_iff (s : Store) :
    ((s.lruCrawl (.parse slabs)).1 = .badclass ∧ (s.lruCrawl (.parse slabs)).2 = s ∧
      Disciplined [] (s.lruCrawlTrace (.parse slabs) true)) ↔
    ∃ p ∈ slabs.tokens, ¬ (Fits p ∨ Wraps p) := by
  constructor
  · rintro ⟨hbad, -⟩
    by_contra hn
    push Not at hn
    rw [Store.lruCrawl, classes_parse_some hall hn] at hbad
    dsimp only at hbad
    split_ifs at hbad
  · intro h
    have hc := classes_parse_none hall h
    refine ⟨by rw [Store.lruCrawl, hc], by rw [Store.lruCrawl, hc], ?_⟩
    rw [Store.lruCrawlTrace, if_pos rfl, hc]
    exact .tryBracket (by simp) (.nil _)

omit hall in
/-- The classes that are marked are those that are named. -/
theorem some_mem_map_readSid_iff (h : ∀ p ∈ slabs.tokens, Fits p) (c : ℕ) :
    some c ∈ slabs.tokens.map readSid ↔ slabs.names c = true := by
  simp only [CString.names, List.mem_map, List.any_eq_true, decide_eq_true_eq]
  apply exists_congr
  intro p
  apply and_congr_right
  intro hp
  obtain ⟨v, hv, hlo, hhi⟩ := h p hp
  simp only [powerSmallest, maxNumberOfSlabClasses] at hlo hhi
  rw [readSid_fits hv (by omega) (by omega), Option.some.injEq]
  constructor
  · intro hc
    rwa [← hc, Int.toNat_of_nonneg (by omega)]
  · intro hc
    rw [hv.unique hc, Int.toNat_natCast]

/-- **What an accepted request does**, if it names no more than the classes below the top one. -/
theorem lruCrawl_starts_iff {s : Store} {queue : ℕ → List Ptr} (hq : s.Queues queue)
    (h : ∀ p ∈ slabs.tokens, Fits p) :
    ((s.lruCrawl (.parse slabs)).2.Queues (crawled queue slabs.namedQueues) ∧
    (s.lruCrawl (.parse slabs)).2.crawlers.crawlerCount =
      s.crawlers.crawlerCount + startable queue slabs.namedQueues ∧
    (s.lruCrawl (.parse slabs)).1 =
      if startable queue slabs.namedQueues = 0 then .notstarted else .ok) ↔
    CrawlersFree queue slabs.namedQueues := by
  constructor
  · rintro ⟨hqueues, -⟩
    exact crawlersFree_of_queues hqueues
  · intro hfree
    have hf : (Store.CrawlList.parse slabs).classes = some slabs.names := by
      rw [classes_parse_some hall fun p hp => .inl (h p hp)]
      congr 1
      funext c
      rw [Bool.eq_iff_iff, decide_eq_true_eq]
      exact some_mem_map_readSid_iff h c
    obtain ⟨m, t, hm, ht⟩ := Store.Starts.crawlClasses slabs.names
      (show Store.crawlable.Nodup from List.nodup_range') (by decide) hq hfree 0
    rw [Nat.zero_add] at hm
    have hcl : s.crawlClasses slabs.names = (m, t) := hm
    have hstarts : m = startable queue slabs.namedQueues := ht.starts
    rw [Store.lruCrawl, hf, ← hstarts]
    simp only [hcl]
    exact ⟨ht.queues, ht.count, trivial⟩

end

/-- The requests that are dealt with exactly: some token is neither a class nor cut to one; or there
are both the top class and a token that is cut to a class; or all tokens are classes below the top
one, and none of their crawlers that would be linked is in a queue. -/
def SoundRequest (queue : ℕ → List Ptr) (slabs : CString) : Prop :=
  (∃ p ∈ slabs.tokens, ¬ Fits p ∧ ¬ IsTop p ∧ ¬ Wraps p) ∨
  ((∃ p ∈ slabs.tokens, IsTop p) ∧ ∃ p ∈ slabs.tokens, Wraps p) ∨
  ((∀ p ∈ slabs.tokens, Fits p) ∧ CrawlersFree queue slabs.namedQueues)

/-- The `COLD` queue of class 1 holds an item. -/
def coldItem : Store :=
  { Store.initial 1 (fun _ => 0) (.initial 0) .failing with
    heap := { Heap.zero with slabsClsid := fun _ => 129 } }.doItemLinkQ (.chunk 64) false

theorem coldItem_queues : coldItem.Queues (Function.update (fun _ => []) 129 [.chunk 64]) := by
  apply QueuesOk.linkQ (.empty (fun _ => rfl) (fun _ => rfl) fun _ => rfl)
  simp

theorem coldItem_free (sids : List ℕ) :
    CrawlersFree (Function.update (fun _ => []) 129 [.chunk 64]) sids := by
  intro q _ _ q'
  rw [Function.update_apply]
  split_ifs <;> simp

/-- The queue holds its crawler too. -/
def coldCrawled : Store := coldItem.doItemLinkQ (.crawler 129) true

theorem coldCrawled_queues :
    coldCrawled.Queues (Function.update (fun _ => []) 129 [.chunk 64, .crawler 129]) := by
  exact QueuesOk.linkQ_single coldItem_queues rfl (by simp)

end Mdb
