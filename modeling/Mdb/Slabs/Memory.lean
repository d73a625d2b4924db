import Mdb.Lib.Arena
import Mdb.Slabs.Classes

/-!
# The memory of the slabs

Pages come from `MemoryAllocator`: out of the one block that `InitSlabs` preallocated, or from
`malloc`. For every table that `InitSlabs` makes, whatever the settings.

* `SameMemory s s'`: no page came, and the block is used as before;
* `Store.newSlabRegion`: what `MemoryAllocator` returns to a `DoSlabsNewSlab` call;
* `doSlabsNewSlab_memory`: all such a call does to pages and memory;
* `MemoryOk`, `MemoryOk.newPage`: the invariant and its step;
* **`memory_bounded`**: pages lie apart and in the block, `mem_malloced_` keeps its limit, and chunks
  lie in their page.
-/

namespace Mdb

open Run

/-! ## What touches no page -/

/-- Both stores have the same pages and the same use of the preallocated block. -/
structure SameMemory (s s' : Store) : Prop where
  settings : s'.settings = s.settings
  cls : ∀ c, (s.slabs.slabclass c).SamePages (s'.slabs.slabclass c)
  memLimit : s'.slabs.memLimit = s.slabs.memLimit
  memMalloced : s'.slabs.memMalloced = s.slabs.memMalloced
  memBase : s'.slabs.memBase = s.slabs.memBase
  memCurrent : s'.slabs.memCurrent = s.slabs.memCurrent
  memAvail : s'.slabs.memAvail = s.slabs.memAvail

namespace SameMemory

variable {s s' s'' : Store}

theorem refl (s : Store) : SameMemory s s := ⟨rfl, fun _ => .refl _, rfl, rfl, rfl, rfl, rfl⟩

theorem trans (h : SameMemory s s') (h' : SameMemory s' s'') : SameMemory s s'' :=
  ⟨h'.settings.trans h.settings, fun c => (h.cls c).trans (h'.cls c), h'.memLimit.trans h.memLimit,
    h'.memMalloced.trans h.memMalloced, h'.memBase.trans h.memBase, h'.memCurrent.trans h.memCurrent,
    h'.memAvail.trans h.memAvail⟩

theorem pageLen (h : SameMemory s s') (c : ℕ) :
    (s'.slabs.slabclass c).pageLen s'.settings = (s.slabs.slabclass c).pageLen s.settings := by
  rw [h.settings, (h.cls c).pageLen]

/-- One class changes, and neither its pages nor its sizes. -/
theorem ofClass {id : ℕ} {p : SlabClass} (hst : s'.settings = s.settings)
    (hsl : s'.slabs = { s.slabs with slabclass := Function.update s.slabs.slabclass id p })
    (h : (s.slabs.slabclass id).SamePages p) : SameMemory s s' := by
  refine ⟨hst, fun c => ?_, ?_, ?_, ?_, ?_, ?_⟩
  · rw [hsl]
    by_cases e : c = id
    · subst e
      simp only [Function.update_self]
      exact h
    · simp only [Function.update_of_ne e]
      exact .refl _
  all_goals rw [hsl]

theorem doSlabsFree (s : Store) (it : Ptr) (size id : ℕ) :
    SameMemory s (s.doSlabsFree it size id) := by
  by_cases hid : s.slabs.InRange id
  · rw [Store.doSlabsFree, if_pos hid]
    exact ofClass rfl rfl ⟨rfl, rfl, rfl, rfl, le_rfl⟩
  · rw [Store.doSlabsFree, if_neg hid]
    exact refl s

theorem freeAll (cs : List Ptr) (id : ℕ) (s : Store) :
    SameMemory s (cs.foldl (fun s it => s.doSlabsFree it 0 id) s) := by
  induction cs generalizing s with
  | nil => exact refl s
  | cons it cs ih => exact (doSlabsFree s it 0 id).trans (ih _)

theorem growSlabList (s : Store) (id : ℕ) : SameMemory s (s.growSlabList id).2 := by
  have hgrow : (s.slabs.slabclass id).listSize ≤
      if (s.slabs.slabclass id).listSize ≠ 0 then (s.slabs.slabclass id).listSize * 2 else 16 := by
    split_ifs <;> omega
  by_cases h1 : (s.slabs.slabclass id).slabs = (s.slabs.slabclass id).listSize
  · by_cases h2 : s.env.reallocs 0 = true
    · simp only [Store.growSlabList, if_pos h1, if_pos h2]
      exact ofClass rfl rfl ⟨rfl, rfl, rfl, rfl, hgrow⟩
    · simp only [Store.growSlabList, if_pos h1, if_neg h2]
      exact ⟨rfl, fun _ => .refl _, rfl, rfl, rfl, rfl, rfl⟩
  · simp only [Store.growSlabList, if_neg h1]
    exact refl s

end SameMemory

/-! ## One call -/

/-- What `MemoryAllocator` returns to the call `DoSlabsNewSlab(id)`, `none` if it is not called or
fails. -/
def Store.newSlabRegion (s : Store) (id : ℕ) : Option Region :=
  let p := s.slabs.slabclass id
  let len := p.pageLen s.settings
  if s.slabs.memLimit ≠ 0 ∧ s.slabs.memLimit < s.slabs.memMalloced + len ∧ 0 < p.slabs then none
  else
    match s.growSlabList id with
    | (false, _) => none
    | (true, s) => (s.memoryAllocator len).1.map fun ptr => (ptr, len)

/-- How `MemoryAllocator` finds `len` bytes: `malloc` gives a block away from all pages, and the
preallocated block has enough bytes left. -/
inductive Taken (s : Store) (len ptr : ℕ) (sl : Slabs) : Prop where
  | malloced (hb : s.slabs.memBase = none) (hf : s.slabs.FreshBlock s.settings ptr len)
      (hsl : sl = s.slabs)
  | bumped (b : ℕ) (hb : s.slabs.memBase = some b) (hlen : len ≤ s.slabs.memAvail)
      (hptr : ptr = s.slabs.memCurrent)
      (hsl : sl = { s.slabs with
        memCurrent := s.slabs.memCurrent + alignUp len
        memAvail := if alignUp len < s.slabs.memAvail then s.slabs.memAvail - alignUp len else 0 })

theorem memoryAllocator_memory (s : Store) (len : ℕ) :
    (∃ e, s.memoryAllocator len = (none, { s with env := e })) ∨
      ∃ ptr sl e, s.memoryAllocator len = (some ptr, { s with slabs := sl, env := e }) ∧
        Taken s len ptr sl := by
  unfold Store.memoryAllocator
  cases hb : s.slabs.memBase with
  | none =>
    cases hm : s.env.mallocs 0 with
    | none => exact .inl ⟨_, rfl⟩
    | some ptr =>
      dsimp only
      split_ifs with hf
      · exact .inr ⟨ptr, s.slabs, _, rfl, .malloced hb hf rfl⟩
      · exact .inl ⟨_, rfl⟩
  | some b =>
    by_cases ha : s.slabs.memAvail < len
    · simp only [if_pos ha]
      exact .inl ⟨s.env, rfl⟩
    · simp only [if_neg ha]
      exact .inr ⟨_, _, s.env, rfl, .bumped b hb (not_lt.mp ha) rfl rfl⟩

/-- The page joins class `id`; pages and memory are otherwise those of `t`. -/
structure PageAdded (t u : Store) (id ptr len : ℕ) : Prop where
  settings : u.settings = t.settings
  sizes : ∀ c, (u.slabs.slabclass c).size = (t.slabs.slabclass c).size ∧
    (u.slabs.slabclass c).perslab = (t.slabs.slabclass c).perslab
  slabs : ∀ c, (u.slabs.slabclass c).slabs = (t.slabs.slabclass c).slabs + if c = id then 1 else 0
  slabList : ∀ c, (u.slabs.slabclass c).slabList =
    (t.slabs.slabclass c).slabList ++ if c = id then [ptr] else []
  memLimit : u.slabs.memLimit = t.slabs.memLimit
  memMalloced : u.slabs.memMalloced = t.slabs.memMalloced + len
  memBase : u.slabs.memBase = t.slabs.memBase
  memCurrent : u.slabs.memCurrent = t.slabs.memCurrent
  memAvail : u.slabs.memAvail = t.slabs.memAvail

theorem PageAdded.pageLen {t u : Store} {id ptr len : ℕ} (h : PageAdded t u id ptr len) (c : ℕ) :
    (u.slabs.slabclass c).pageLen u.settings = (t.slabs.slabclass c).pageLen t.settings := by
  simp only [SlabClass.pageLen, h.settings, (h.sizes c).1, (h.sizes c).2]

theorem carvePage_added (t : Store) (ptr id len : ℕ) :
    PageAdded t (t.carvePage ptr id len) id ptr len := by
  obtain ⟨cs, hcs⟩ : ∃ cs, cs =
    pageChunks ptr (t.slabs.slabclass id).size (t.slabs.slabclass id).perslab := ⟨_, rfl⟩
  obtain ⟨w, hw⟩ : ∃ w, w = cs.foldl (fun s it => s.doSlabsFree it 0 id)
    { t with heap := t.heap.clear cs } := ⟨_, rfl⟩
  have hclear : SameMemory t { t with heap := t.heap.clear cs } :=
    ⟨rfl, fun _ => .refl _, rfl, rfl, rfl, rfl, rfl⟩
  have hs : SameMemory t w := hw ▸ hclear.trans (SameMemory.freeAll cs id _)
  have e : t.carvePage ptr id len = { w with slabs := w.slabs.addPage id ptr len } := by
    rw [hw, hcs]; rfl
  rw [e]
  refine ⟨hs.settings, fun c => ?_, fun c => ?_, fun c => ?_, hs.memLimit, ?_, hs.memBase,
    hs.memCurrent, hs.memAvail⟩
  · dsimp only
    rw [addPage_size, addPage_perslab, (hs.cls c).size, (hs.cls c).perslab]
    exact ⟨rfl, rfl⟩
  · dsimp only
    rw [addPage_slabs, (hs.cls c).slabs]
  · dsimp only
    rw [addPage_slabList, (hs.cls c).slabList]
  · exact congrArg (· + len) hs.memMalloced

/-- **What `DoSlabsNewSlab` does to pages and memory**: nothing, or it adds the region that
`MemoryAllocator` returned, within the limit or as the first page of the class. -/
theorem doSlabsNewSlab_memory (s : Store) (id : ℕ) :
    (s.newSlabRegion id = none ∧ SameMemory s (s.doSlabsNewSlab id).2) ∨
    ∃ t w ptr, s.newSlabRegion id = some (ptr, (s.slabs.slabclass id).pageLen s.settings) ∧
      SameMemory s t ∧ Taken t ((s.slabs.slabclass id).pageLen s.settings) ptr w.slabs ∧
      w.settings = t.settings ∧
      PageAdded w (s.doSlabsNewSlab id).2 id ptr ((s.slabs.slabclass id).pageLen s.settings) ∧
      (s.slabs.memLimit ≠ 0 → 0 < (s.slabs.slabclass id).slabs →
        s.slabs.memMalloced + (s.slabs.slabclass id).pageLen s.settings ≤ s.slabs.memLimit) := by
  have hg := SameMemory.growSlabList s id
  unfold Store.newSlabRegion Store.doSlabsNewSlab
  dsimp only
  split_ifs with hlim
  · exact .inl ⟨rfl, rfl, fun _ => .refl _, rfl, rfl, rfl, rfl, rfl⟩
  obtain ⟨⟨ok, t⟩, ht⟩ : ∃ r, r = s.growSlabList id := ⟨_, rfl⟩
  rw [← ht] at hg ⊢
  cases ok with
  | false => exact .inl ⟨rfl, hg⟩
  | true =>
    obtain ⟨e, hr⟩ | ⟨ptr, sl, e, hr, htaken⟩ :=
      memoryAllocator_memory t ((s.slabs.slabclass id).pageLen s.settings)
    · dsimp only
      rw [hr]
      exact .inl ⟨rfl, hg.trans ⟨rfl, fun _ => .refl _, rfl, rfl, rfl, rfl, rfl⟩⟩
    · dsimp only
      rw [hr]
      refine .inr ⟨t, { t with slabs := sl, env := e }, ptr, rfl, hg, htaken, rfl,
        carvePage_added _ _ _ _, fun h1 h2 => ?_⟩
      by_contra h3
      exact hlim ⟨h1, not_le.mp h3, h2⟩

/-! ## Runs -/

/-- The store, and the regions `MemoryAllocator` has returned, newest first. -/
structure MemoryRun where
  store : Store
  regions : List Region

/-- One `DoSlabsNewSlab` call, or anything that touches no page. -/
inductive MemoryStep : MemoryRun → MemoryRun → Prop where
  | newSlab (r : MemoryRun) (id : ℕ) (hid : id < maxNumberOfSlabClasses) :
      MemoryStep r
        { store := (r.store.doSlabsNewSlab id).2
          regions := (r.store.newSlabRegion id).toList ++ r.regions }
  | other (r : MemoryRun) (s : Store) (h : SameMemory r.store s) : MemoryStep r { r with store := s }

/-- The slabs as `InitSlabs` leaves them, for any settings, growth factor and limit above 0. -/
def MemoryRun.Init (r : MemoryRun) : Prop :=
  (∃ limit num den base, 0 < limit ∧
    r.store.slabs = initSlabs r.store.settings limit num den base) ∧ r.regions = []

/-- The page lengths of the classes that own a page. -/
def ownedPageLens (s : Store) : ℕ :=
  ∑ c ∈ Finset.range maxNumberOfSlabClasses,
    if 0 < (s.slabs.slabclass c).slabs then (s.slabs.slabclass c).pageLen s.settings else 0

/-- **The invariant of the memory.** -/
structure MemoryOk (s : Store) (regions : List Region) : Prop where
  limit : 0 < s.slabs.memLimit
  fits : ∀ c, (s.slabs.slabclass c).size * (s.slabs.slabclass c).perslab ≤ s.settings.itemSizeMax
  arena : ∀ b, s.slabs.memBase = some b → Arena.Ok chunkAlignBytes b s.slabs.memLimit
    s.slabs.memCurrent s.slabs.memAvail regions
  malloced : s.slabs.memBase ≠ none → s.slabs.memMalloced + s.slabs.memAvail ≤ s.slabs.memLimit
  bound : s.slabs.memMalloced ≤ s.slabs.memLimit + ownedPageLens s
  apart : regions.Pairwise Region.Apart
  pages : ∀ q, q ∈ regions ↔ ∃ c < maxNumberOfSlabClasses, q.1 ∈ (s.slabs.slabclass c).slabList ∧
    q.2 = (s.slabs.slabclass c).pageLen s.settings

namespace MemoryOk

variable {s s' : Store} {regions : List Region}

theorem sameMemory (h : MemoryOk s regions) (e : SameMemory s s') : MemoryOk s' regions where
  limit := e.memLimit ▸ h.limit
  fits c := by rw [(e.cls c).size, (e.cls c).perslab, e.settings]; exact h.fits c
  arena b hb := by
    rw [e.memLimit, e.memCurrent, e.memAvail]
    exact h.arena b (e.memBase ▸ hb)
  malloced hb := by
    rw [e.memMalloced, e.memAvail, e.memLimit]
    exact h.malloced (e.memBase ▸ hb)
  bound := by
    have : ownedPageLens s' = ownedPageLens s := by
      refine Finset.sum_congr rfl fun c _ => ?_
      rw [(e.cls c).slabs, e.pageLen c]
    rw [e.memMalloced, e.memLimit, this]
    exact h.bound
  apart := h.apart
  pages q := by
    rw [h.pages q]
    refine exists_congr fun c => and_congr_right fun _ => ?_
    rw [(e.cls c).slabList, e.pageLen c]

/-- A first page adds its length to the allowance, a further one nothing. -/
theorem ownedPageLens_add {t u : Store} {id ptr len : ℕ} (e : PageAdded t u id ptr len)
    (hid : id < maxNumberOfSlabClasses) :
    ownedPageLens u = ownedPageLens t + if 0 < (t.slabs.slabclass id).slabs then 0
      else (t.slabs.slabclass id).pageLen t.settings := by
  have hmem : id ∈ Finset.range maxNumberOfSlabClasses := Finset.mem_range.mpr hid
  unfold ownedPageLens
  rw [← Finset.add_sum_erase _ _ hmem, ← Finset.add_sum_erase _ _ hmem, e.slabs id, if_pos rfl,
    if_pos (Nat.succ_pos _), e.pageLen id]
  have hrest : ∀ c ∈ (Finset.range maxNumberOfSlabClasses).erase id,
      (if 0 < (u.slabs.slabclass c).slabs then (u.slabs.slabclass c).pageLen u.settings else 0) =
      if 0 < (t.slabs.slabclass c).slabs then (t.slabs.slabclass c).pageLen t.settings else 0 := by
    intro c hc
    rw [e.slabs c, if_neg (Finset.ne_of_mem_erase hc), Nat.add_zero, e.pageLen c]
  rw [Finset.sum_congr rfl hrest]
  split_ifs <;> omega

/-- The memory that a page comes from. -/
theorem taken_arena {t : Store} {len ptr : ℕ} {sl : Slabs} (h : MemoryOk t regions)
    (ht : Taken t len ptr sl) :
    sl.slabclass = t.slabs.slabclass ∧ sl.memLimit = t.slabs.memLimit ∧
      sl.memMalloced = t.slabs.memMalloced ∧ sl.memBase = t.slabs.memBase ∧
      (∀ b, sl.memBase = some b → Arena.Ok chunkAlignBytes b sl.memLimit sl.memCurrent sl.memAvail
        ((ptr, len) :: regions)) ∧
      (sl.memBase ≠ none → sl.memMalloced + len + sl.memAvail ≤ sl.memLimit) ∧
      ∀ q ∈ regions, Region.Apart (ptr, len) q := by
  cases ht with
  | malloced hb hf hsl =>
    subst hsl
    refine ⟨rfl, rfl, rfl, rfl, fun b hb' => ?_, fun hb' => absurd hb hb', fun q hq => ?_⟩
    · rw [hb] at hb'; cases hb'
    · obtain ⟨c, hc, hp, hl⟩ := (h.pages q).mp hq
      rcases hf c hc q.1 hp with h1 | h1
      · exact .inl h1
      · exact .inr (hl ▸ h1)
  | bumped b hb hlen hptr hsl =>
    subst hsl hptr
    have ha := h.arena b hb
    have hup := (alignUp_bounds len).1
    refine ⟨rfl, rfl, rfl, rfl, fun b' hb' => ?_, fun _ => ?_, fun q hq => .inr (ha.below q hq)⟩
    · have e : b' = b := Option.some.inj (hb'.symm.trans hb)
      rw [e]
      exact ha.take hlen hup (dvd_alignUp len)
    · have := h.malloced (by rw [hb]; simp)
      dsimp only
      split_ifs <;> omega

/-- **A page joins.** -/
theorem newPage {t w u : Store} {id ptr : ℕ} (h : MemoryOk t regions)
    (hid : id < maxNumberOfSlabClasses)
    (ht : Taken t ((t.slabs.slabclass id).pageLen t.settings) ptr w.slabs)
    (hw : w.settings = t.settings)
    (hu : PageAdded w u id ptr ((t.slabs.slabclass id).pageLen t.settings))
    (hlim : 0 < (t.slabs.slabclass id).slabs →
      t.slabs.memMalloced + (t.slabs.slabclass id).pageLen t.settings ≤ t.slabs.memLimit) :
    MemoryOk u ((ptr, (t.slabs.slabclass id).pageLen t.settings) :: regions) := by
  obtain ⟨hcls, hml, hmm, hmb, harena, hmal, hapart⟩ := h.taken_arena ht
  have hlen : ∀ c, (u.slabs.slabclass c).pageLen u.settings = (t.slabs.slabclass c).pageLen t.settings := by
    intro c
    rw [hu.pageLen c, hcls, hw]
  have howned := ownedPageLens_add hu hid
  have howned' : ownedPageLens w = ownedPageLens t := by
    simp only [ownedPageLens, hcls, hw]
  rw [howned', hcls, hw] at howned
  refine ⟨?_, fun c => ?_, fun b hb => ?_, fun hb => ?_, ?_, List.pairwise_cons.mpr ⟨hapart, h.apart⟩,
    fun q => ?_⟩
  · rw [hu.memLimit, hml]; exact h.limit
  · rw [(hu.sizes c).1, (hu.sizes c).2, hu.settings, hcls, hw]; exact h.fits c
  · rw [hu.memLimit, hu.memCurrent, hu.memAvail]
    exact harena b (hu.memBase ▸ hb)
  · rw [hu.memMalloced, hu.memAvail, hu.memLimit]
    exact hmal (hu.memBase ▸ hb)
  · rw [hu.memMalloced, hu.memLimit, howned, hmm, hml]
    have := h.bound
    split_ifs with hpos
    · have := hlim hpos
      omega
    · omega
  · rw [List.mem_cons, h.pages q]
    constructor
    · rintro (rfl | ⟨c, hc, hp, hl⟩)
      · refine ⟨id, hid, ?_, (hlen id).symm⟩
        rw [hu.slabList id, if_pos rfl]
        exact List.mem_append_right _ (List.mem_singleton_self _)
      · refine ⟨c, hc, ?_, hl.trans (hlen c).symm⟩
        rw [hu.slabList c, hcls]
        exact List.mem_append_left _ hp
    · rintro ⟨c, hc, hp, hl⟩
      rw [hu.slabList c, hcls, List.mem_append] at hp
      rw [hlen c] at hl
      rcases hp with hp | hp
      · exact .inr ⟨c, hc, hp, hl⟩
      · split_ifs at hp with ec
        · subst ec
          exact .inl (Prod.ext (List.mem_singleton.mp hp) hl)
        · cases hp

/-- **Every step keeps the memory in order.** -/
theorem step {r r' : MemoryRun} (h : MemoryOk r.store r.regions) (hs : MemoryStep r r') :
    MemoryOk r'.store r'.regions := by
  cases hs with
  | newSlab id hid =>
    obtain ⟨hr, hsame⟩ | ⟨t, w, ptr, hr, hsame, htaken, hw, hadd, hlim⟩ :=
      doSlabsNewSlab_memory r.store id
    · rw [hr]
      exact h.sameMemory hsame
    · rw [hr]
      rw [← hsame.pageLen id] at htaken hadd hlim ⊢
      refine (h.sameMemory hsame).newPage hid htaken hw hadd fun hpos => ?_
      rw [hsame.memMalloced, hsame.memLimit]
      exact hlim h.limit.ne' ((hsame.cls id).slabs ▸ hpos)
  | other s hsame => exact h.sameMemory hsame

end MemoryOk

/-! ## The start -/

/-- A class as `InitSlabs` leaves it. -/
def SlabClass.Fresh (st : Settings) (p : SlabClass) : Prop :=
  p.size * p.perslab ≤ st.itemSizeMax ∧ p.slabs = 0 ∧ p.slabList = []

theorem initSlabsLoop_fresh (st : Settings) (num den fuel i size : ℕ) (t : ℕ → SlabClass)
    (h : ∀ c, (t c).Fresh st) : ∀ c, ((initSlabsLoop st num den fuel i size t).2 c).Fresh st := by
  induction fuel generalizing i size t with
  | zero => exact h
  | succ fuel ih =>
    rw [initSlabsLoop]
    split_ifs
    · refine ih _ _ _ fun c => ?_
      by_cases e : c = i
      · subst e
        rw [Function.update_self]
        exact ⟨Nat.mul_div_le _ _, (h c).2⟩
      · rw [Function.update_of_ne e]
        exact h c
    · exact h

theorem initSlabs_fresh (st : Settings) (limit num den : ℕ) (base : Option ℕ) (c : ℕ) :
    ((initSlabs st limit num den base).slabclass c).Fresh st := by
  have h := initSlabsLoop_fresh st num den (maxNumberOfSlabClasses - 2) powerSmallest
    (sizeofItem + st.chunkSize) (Slabs.initial limit).slabclass fun c =>
      ⟨Nat.zero_le _, rfl, rfl⟩
  simp only [initSlabs]
  by_cases e : c = (initSlabsLoop st num den (maxNumberOfSlabClasses - 2) powerSmallest
      (sizeofItem + st.chunkSize) (Slabs.initial limit).slabclass).1
  · rw [e, Function.update_self]
    exact ⟨(Nat.mul_one _).le, (h _).2⟩
  · rw [Function.update_of_ne e]
    exact h c

theorem MemoryOk.init {r : MemoryRun} (h : r.Init) : MemoryOk r.store r.regions := by
  obtain ⟨⟨limit, num, den, base, hlim, hs⟩, hr⟩ := h
  have hfresh := fun c => hs ▸ initSlabs_fresh r.store.settings limit num den base c
  rw [hr]
  refine ⟨by rw [hs]; exact hlim, fun c => (hfresh c).1, fun b hb => ?_, fun hb => ?_, ?_, .nil,
    fun q => ?_⟩
  · rw [hs] at hb ⊢
    have e : base = some b := hb
    subst e
    exact Arena.Ok.empty
  · rw [hs]
    simp only [initSlabs, Slabs.initial]
    split_ifs <;> omega
  · rw [hs]
    exact Nat.zero_le _
  · refine ⟨fun hq => absurd hq List.not_mem_nil, ?_⟩
    rintro ⟨c, -, hp, -⟩
    rw [(hfresh c).2.2] at hp
    exact absurd hp List.not_mem_nil

/-! ## The result -/

/-- The chunks of a page lie one behind the other, inside it. -/
structure Carved (ptr len size perslab : ℕ) : Prop where
  inside : ∀ x ∈ pageChunks ptr size perslab, ∃ a, x = .chunk a ∧ ptr ≤ a ∧ a + size ≤ ptr + len
  apart : (pageChunks ptr size perslab).Pairwise fun x y =>
    ∃ a b, x = .chunk a ∧ y = .chunk b ∧ a + size ≤ b

theorem carved_of_fits {ptr len size perslab : ℕ} (h : size * perslab ≤ len) :
    Carved ptr len size perslab where
  inside x hx := by
    obtain ⟨i, hi, rfl⟩ := mem_pageChunks.mp hx
    have : (i + 1) * size ≤ size * perslab := by
      rw [Nat.mul_comm size]
      exact Nat.mul_le_mul_right size hi
    rw [Nat.add_mul] at this
    exact ⟨_, rfl, Nat.le_add_right _ _, by omega⟩
  apart := by
    refine List.pairwise_map.mpr (List.pairwise_lt_range.imp fun {i j} hij => ?_)
    have : (i + 1) * size ≤ j * size := Nat.mul_le_mul_right size hij
    rw [Nat.add_mul] at this
    exact ⟨_, _, rfl, rfl, by omega⟩

/-- **The memory of a store**: `regions` are those `MemoryAllocator` returned. -/
structure MemoryBounded (s : Store) (regions : List Region) : Prop where
  apart : regions.Pairwise Region.Apart
  aligned : ∀ b, s.slabs.memBase = some b → ∀ q ∈ regions, b ≤ q.1 ∧ chunkAlignBytes ∣ q.1 - b
  within : ∀ b, s.slabs.memBase = some b → ∀ q ∈ regions, q.Within b s.slabs.memLimit
  prealloc : s.slabs.memBase ≠ none → s.slabs.memMalloced ≤ s.slabs.memLimit
  malloc : s.slabs.memMalloced ≤ s.slabs.memLimit + ownedPageLens s
  /-- The regions are the pages. -/
  pages : ∀ q, q ∈ regions ↔ ∃ c < maxNumberOfSlabClasses, q.1 ∈ (s.slabs.slabclass c).slabList ∧
    q.2 = (s.slabs.slabclass c).pageLen s.settings
  chunks : ∀ c, ∀ p ∈ (s.slabs.slabclass c).slabList, Carved p
    ((s.slabs.slabclass c).pageLen s.settings) (s.slabs.slabclass c).size (s.slabs.slabclass c).perslab

theorem MemoryOk.bounded {s : Store} {regions : List Region} (h : MemoryOk s regions) :
    MemoryBounded s regions where
  apart := h.apart
  aligned b hb := (h.arena b hb).start
  within b hb := (h.arena b hb).within
  prealloc hb := (Nat.le_add_right _ _).trans (h.malloced hb)
  malloc := h.bound
  pages := h.pages
  chunks c p _ := by
    refine carved_of_fits ?_
    unfold SlabClass.pageLen
    split_ifs
    · exact h.fits c
    · exact le_rfl

/-- **Slab memory**: in every sequence of `DoSlabsNewSlab` calls. -/
theorem memory_bounded {r : MemoryRun} (h : Reach MemoryRun.Init MemoryStep r) :
    MemoryBounded r.store r.regions := by
  have hok : MemoryOk r.store r.regions :=
    Reach.invariant (I := fun r => MemoryOk r.store r.regions) h (fun _ => MemoryOk.init)
      fun _ _ h hs => h.step hs
  exact hok.bounded

/-- Two pages of 192 bytes out of a block of 400. -/
theorem memory_bounded_prealloc : ∃ r : MemoryRun,
    r.regions = [(4288, 192), (4096, 192)] ∧ r.store.slabs.memAvail = 16 ∧
      MemoryBounded r.store r.regions := by
  let st : Settings := { initDBSettings with itemSizeMax := 256 }
  let r : MemoryRun :=
    { store := { Store.initial 16 (fun _ => 0) (initSlabs st 400 2 1 (some 4096))
        { Env.failing with reallocs := fun _ => true } with settings := st }
      regions := [] }
  have h0 : Reach MemoryRun.Init MemoryStep r :=
    .start ⟨⟨400, 2, 1, some 4096, by decide, rfl⟩, rfl⟩
  have h1 := h0.next (.newSlab r 1 (by decide))
  have h2 := h1.next (.newSlab _ 1 (by decide))
  exact ⟨_, by decide, by decide, memory_bounded h2⟩

end Mdb
