import Mdb.Lib.Run
import Mdb.Slabs.Conserve

/-!
# Runs of the slab allocator

* `SlabsConfig`, `initSlabs_ok`: every table `InitSlabs` makes from sensible settings is good;
  `initDB_slabsConfig`: those of `InitDB` are;
* `SlabsRun`, `SlabsStep`: allocations, releases and new pages in any order;
* `chunks_conserved`: in every state reached each class's chunks are those on its freelist and those
  handed out.
-/

namespace Mdb

open Dll Run

/-! ## The table `InitSlabs` makes -/

/-- Settings from which `InitSlabs` makes a good table: the factor `num / den` is at least one, the
largest size rounded up still fits, and the memory is at most 1 GB. -/
structure SlabsConfig (st : Settings) (limit num den : ℕ) : Prop where
  den_pos : 0 < den
  den_le : den ≤ num
  fits : st.itemSizeMax * den / num + 7 ≤ st.itemSizeMax
  itemSizeMax_ge : sizeofItem ≤ st.itemSizeMax
  itemSizeMax_le : st.itemSizeMax ≤ 2 ^ 30
  limit_pos : 0 < limit
  limit_le : limit ≤ 2 ^ 30

/-- The settings of `InitDB` are such settings. -/
theorem initDB_slabsConfig : SlabsConfig initDBSettings (64 * 1024 * 1024) 5 4 :=
  ⟨by decide, by decide, by decide, by decide, by decide, by decide, by decide⟩

/-- A class without pages. -/
def SlabClass.Blank (p : SlabClass) : Prop :=
  p.slots = none ∧ p.slCurr = 0 ∧ p.slabs = 0 ∧ p.slabList = [] ∧ p.requested = 0

/-- A class whose chunks fit a page. -/
def SlabClass.Fits (p : SlabClass) (st : Settings) : Prop :=
  1 ≤ p.perslab ∧ sizeofItem ≤ p.size ∧ p.size * p.perslab ≤ st.itemSizeMax

theorem alignUp_bounds (n : ℕ) : n ≤ alignUp n ∧ alignUp n ≤ n + 7 := by
  unfold alignUp chunkAlignBytes
  split_ifs <;> omega

theorem fits_of_size_le {p : SlabClass} {st : Settings} {size : ℕ} (h1 : sizeofItem ≤ size)
    (h2 : size ≤ st.itemSizeMax) :
    ({ p with size := size, perslab := st.itemSizeMax / size } : SlabClass).Fits st := by
  have hpos : 0 < size := lt_of_lt_of_le (by decide) h1
  exact ⟨Nat.div_pos h2 hpos, h1, Nat.mul_div_le _ _⟩

/-- The loop of `InitSlabs` fills in classes that fit and leaves them blank. -/
theorem initSlabsLoop_ok {st : Settings} {limit num den : ℕ} (hc : SlabsConfig st limit num den)
    (fuel i size : ℕ) (t : ℕ → SlabClass) (hsize : sizeofItem ≤ size)
    (hfits : ∀ c, powerSmallest ≤ c → c < i → (t c).Fits st) (hblank : ∀ c, (t c).Blank) :
    (initSlabsLoop st num den fuel i size t).1 ≤ i + fuel ∧
      (∀ c, powerSmallest ≤ c → c < (initSlabsLoop st num den fuel i size t).1 →
        ((initSlabsLoop st num den fuel i size t).2 c).Fits st) ∧
      ∀ c, ((initSlabsLoop st num den fuel i size t).2 c).Blank := by
  induction fuel generalizing i size t with
  | zero => exact ⟨le_rfl, hfits, hblank⟩
  | succ fuel ih =>
    rw [initSlabsLoop]
    split_ifs with hle
    · have hal := alignUp_bounds size
      have hmax : alignUp size ≤ st.itemSizeMax := by
        have : size ≤ st.itemSizeMax * den / num :=
          (Nat.le_div_iff_mul_le (lt_of_lt_of_le hc.den_pos hc.den_le)).mpr hle
        have := hc.fits
        omega
      have hnext : sizeofItem ≤ alignUp size * num / den := by
        rw [Nat.le_div_iff_mul_le hc.den_pos]
        exact Nat.mul_le_mul (hsize.trans hal.1) hc.den_le
      have := ih (i + 1) (alignUp size * num / den)
        (Function.update t i
          { t i with size := alignUp size, perslab := st.itemSizeMax / alignUp size }) hnext
        (fun c h1 h2 => ?_) (fun c => ?_)
      · refine ⟨this.1.trans (by omega), this.2⟩
      · by_cases e : c = i
        · subst e
          rw [Function.update_self]
          exact fits_of_size_le (hsize.trans hal.1) hmax
        · rw [Function.update_of_ne e]
          exact hfits c h1 (by omega)
      · by_cases e : c = i
        · subst e
          rw [Function.update_self]
          exact hblank c
        · rw [Function.update_of_ne e]
          exact hblank c
    · exact ⟨Nat.le_add_right _ _, hfits, hblank⟩

/-- **The table `InitSlabs` makes is good**: no page, and every class fits. -/
theorem initSlabs_ok {st : Settings} {limit num den : ℕ} (hc : SlabsConfig st limit num den)
    (base : Option ℕ) : (initSlabs st limit num den base).Valid st ∧
      ∀ c, ((initSlabs st limit num den base).slabclass c).Blank := by
  obtain ⟨h1, h2, h3⟩ := initSlabsLoop_ok hc (maxNumberOfSlabClasses - 2) powerSmallest
    (sizeofItem + st.chunkSize) (Slabs.initial limit).slabclass (Nat.le_add_right _ _)
    (fun c h1 h2 => by omega) (fun c => ⟨rfl, rfl, rfl, rfl, rfl⟩)
  have hfit : ∀ c, (initSlabs st limit num den base).InRange c →
      ((initSlabs st limit num den base).slabclass c).Fits st := by
    rintro c ⟨hc1, hc2⟩
    simp only [initSlabs] at hc2 ⊢
    by_cases e : c = (initSlabsLoop st num den (maxNumberOfSlabClasses - 2) powerSmallest
        (sizeofItem + st.chunkSize) (Slabs.initial limit).slabclass).1
    · rw [e, Function.update_self]
      exact ⟨le_rfl, hc.itemSizeMax_ge, by simp⟩
    · rw [Function.update_of_ne e]
      exact h2 c hc1 (lt_of_le_of_ne hc2 e)
  refine ⟨⟨?_, fun c h => (hfit c h).1, fun c h => (hfit c h).2.1, fun c h => (hfit c h).2.2,
    hc.itemSizeMax_le, hc.limit_pos, hc.limit_le⟩, fun c => ?_⟩
  · exact lt_of_le_of_lt h1 (by decide)
  · simp only [initSlabs]
    by_cases e : c = (initSlabsLoop st num den (maxNumberOfSlabClasses - 2) powerSmallest
        (sizeofItem + st.chunkSize) (Slabs.initial limit).slabclass).1
    · rw [e, Function.update_self]
      exact h3 _
    · rw [Function.update_of_ne e]
      exact h3 c

/-- With no page there is no chunk. -/
theorem SlabsOk.blank {s : Store} (hv : s.slabs.Valid s.settings)
    (hb : ∀ c, (s.slabs.slabclass c).Blank) : s.SlabsOk (fun _ => []) fun _ => [] where
  freelists := .empty fun c => ⟨(hb c).1, (hb c).2.1⟩
  pages := by
    refine ⟨fun c c' p p' hp => ?_, fun c => ?_, fun _ c p hp => ?_, fun c p hp => ?_, fun c => ?_,
      fun c => ?_, fun c => ?_, fun c => ?_⟩
    · rw [(hb c).2.2.2.1] at hp; cases hp
    · rw [(hb c).2.2.2.1]; exact List.nodup_nil
    · rw [(hb c).2.2.2.1] at hp; cases hp
    · rw [(hb c).2.2.2.1] at hp; cases hp
    · rw [(hb c).2.2.1, (hb c).2.2.2.1]; rfl
    all_goals rw [(hb c).2.2.1]; simp
  valid := hv
  perm c := by rw [Slabs.chunks, (hb c).2.2.2.1]; exact .refl _

/-! ## Runs -/

/-- The store, and the chunks of each class that are handed out. -/
structure SlabsRun where
  store : Store
  allocated : ℕ → List Ptr

/-- One call of the allocator. -/
inductive SlabsStep : SlabsRun → SlabsRun → Prop where
  | alloc (r : SlabsRun) (size id : ℕ) (tc : UInt32) :
      SlabsStep r
        { store := (r.store.doSlabsAlloc size id tc).2.2
          allocated := match (r.store.doSlabsAlloc size id tc).1 with
            | some it => Function.update r.allocated id (it :: r.allocated id)
            | none => r.allocated }
  | free (r : SlabsRun) (it : Ptr) (size id : ℕ) (hit : it ∈ r.allocated id) :
      SlabsStep r
        { store := r.store.doSlabsFree it size id
          allocated := Function.update r.allocated id ((r.allocated id).erase it) }
  | newSlab (r : SlabsRun) (id : ℕ) (hid : r.store.slabs.InRange id) :
      SlabsStep r { r with store := (r.store.doSlabsNewSlab id).2 }
  /-- Anything else: it writes no chunk that is not handed out. -/
  | other (r : SlabsRun) (s : Store) (hslabs : s.slabs = r.store.slabs)
      (hsettings : s.settings = r.store.settings)
      (hheap : ∀ x, (∀ c, x ∉ r.allocated c) →
        s.heap.next x = r.store.heap.next x ∧ s.heap.prev x = r.store.heap.prev x ∧
        s.heap.itFlags x = r.store.heap.itFlags x ∧
        s.heap.slabsClsid x = r.store.heap.slabsClsid x) :
      SlabsStep r { r with store := s }

/-- The slabs as `InitSlabs` leaves them. -/
def SlabsRun.Init (r : SlabsRun) : Prop :=
  (∃ limit num den base, SlabsConfig r.store.settings limit num den ∧
    r.store.slabs = initSlabs r.store.settings limit num den base) ∧ ∀ c, r.allocated c = []

theorem SlabsOk.init {r : SlabsRun} (h : r.Init) : r.store.SlabsOk (fun _ => []) r.allocated := by
  obtain ⟨⟨limit, num, den, base, hc, hs⟩, ha⟩ := h
  obtain ⟨hv, hb⟩ := initSlabs_ok hc base
  have e : r.allocated = fun _ => [] := funext ha
  rw [e]
  exact SlabsOk.blank (hs ▸ hv) (hs ▸ hb)

/-- **Every call conserves the chunks.** -/
theorem SlabsOk.step {r r' : SlabsRun} {free : ℕ → List Ptr}
    (h : r.store.SlabsOk free r.allocated) (hs : SlabsStep r r') :
    ∃ free', r'.store.SlabsOk free' r'.allocated := by
  cases hs with
  | alloc size id tc =>
    obtain ⟨sl, e, tc', hr, hun⟩ | ⟨it, tc', s', free', hr, -, -, hok, -⟩ :=
      h.doSlabsAlloc size id tc
    · simp only [hr]
      exact ⟨free, h.unchanged hun⟩
    · simp only [hr]
      exact ⟨free', hok⟩
  | free it size id hit => exact ⟨_, h.doSlabsFree hit size⟩
  | newSlab id hid =>
    obtain ⟨sl, e, hr, hun⟩ | ⟨u, cs, hr, -, -, hok, -⟩ := h.doSlabsNewSlab hid
    · simp only [hr]
      exact ⟨free, h.unchanged hun⟩
    · simp only [hr]
      exact ⟨_, hok⟩
  | other s hslabs hsettings hheap =>
    refine ⟨free, ?_⟩
    simp only [Store.SlabsOk, hslabs, hsettings]
    exact h.congr fun c x hx => hheap x fun c' hx' => h.alloc_not_free hx' c hx

/-- Freelists, page counts, requested bytes and `mem_malloced_` are the same in both stores. -/
structure SameChunks (s s' : Store) : Prop where
  heap : s'.heap = s.heap
  slots : ∀ c, (s'.slabs.slabclass c).slots = (s.slabs.slabclass c).slots
  slCurr : ∀ c, (s'.slabs.slabclass c).slCurr = (s.slabs.slabclass c).slCurr
  slabs : ∀ c, (s'.slabs.slabclass c).slabs = (s.slabs.slabclass c).slabs
  requested : ∀ c, (s'.slabs.slabclass c).requested = (s.slabs.slabclass c).requested
  memMalloced : s'.slabs.memMalloced = s.slabs.memMalloced

theorem Slabs.Unchanged.sameChunks {s : Store} {sl : Slabs} {e : Env} (h : s.slabs.Unchanged sl) :
    SameChunks s { s with slabs := sl, env := e } :=
  ⟨rfl, h.slots, h.slCurr, fun c => (h.pages.cls c).slabs, h.requested, h.pages.memMalloced⟩

/-- **The chunks of every class are conserved**: `free` are the freelists. -/
structure Conserved (r : SlabsRun) (free : ℕ → List Ptr) : Prop where
  /-- The freelist is a well-formed list, walked from `slots`. -/
  wellFormed : ∀ c, WellFormed r.store.heap.next r.store.heap.prev (r.store.slabs.slabclass c).slots
    (free c).getLast? (free c)
  /-- It has `sl_curr` chunks. -/
  count : ∀ c, (r.store.slabs.slabclass c).slCurr.toNat = (free c).length
  slabbed : ∀ c, ∀ x ∈ free c,
    (r.store.heap.itFlags x).slabbed = true ∧ r.store.heap.slabsClsid x = 0
  /-- Free and handed-out chunks are disjoint and together are the chunks of the class. -/
  disjoint : ∀ c, ∀ x ∈ free c, ∀ c', x ∉ r.allocated c'
  together : ∀ c, (free c ++ r.allocated c).Perm (r.store.slabs.chunks c)
  /-- These are `slabs * perslab` different chunks, and of no other class. -/
  chunks : ∀ c, (r.store.slabs.chunks c).Nodup ∧ (r.store.slabs.chunks c).length =
    (r.store.slabs.slabclass c).slabs * (r.store.slabs.slabclass c).perslab
  chunks_disjoint : ∀ c c' x, x ∈ r.store.slabs.chunks c → x ∈ r.store.slabs.chunks c' → c = c'
  slabs_le : ∀ c, (r.store.slabs.slabclass c).slabs ≤ (r.store.slabs.slabclass c).listSize
  /-- A chunk handed out next is not handed out now. -/
  fresh : ∀ size id tc it, (r.store.doSlabsAlloc size id tc).1 = some it → ∀ c, it ∉ r.allocated c
  /-- A failing call changes nothing. -/
  alloc_fails : ∀ size id tc, (r.store.doSlabsAlloc size id tc).1 = none →
    SameChunks r.store (r.store.doSlabsAlloc size id tc).2.2
  newSlab_fails : ∀ id, r.store.slabs.InRange id → (r.store.doSlabsNewSlab id).1 = false →
    SameChunks r.store (r.store.doSlabsNewSlab id).2

theorem SlabsOk.conserved {r : SlabsRun} {free : ℕ → List Ptr}
    (h : r.store.SlabsOk free r.allocated) : Conserved r free where
  wellFormed c := by
    have hd : IsDll r.store.heap.next r.store.heap.prev (r.store.slabs.slabclass c).slots
        (free c).getLast? (free c) :=
      ⟨h.freelists.nodup c, h.freelists.slots c, rfl, h.freelists.seg c⟩
    exact hd.wellFormed
  count := h.slCurr_toNat
  slabbed c x hx := ⟨h.freelists.slabbed c x hx, h.freelists.clsid_zero c x hx⟩
  disjoint c x hx c' hx' := h.alloc_not_free hx' c hx
  together := h.perm
  chunks c := ⟨h.pages.chunks_nodup h.valid c, h.pages.chunks_length c⟩
  chunks_disjoint c c' x hx hx' := h.pages.chunks_disjoint h.valid hx hx'
  slabs_le := h.pages.slabs_le
  fresh size id tc it hr := by
    obtain ⟨sl, e, tc', hr', -⟩ | ⟨it', tc', s', free', hr', -, hnew, -⟩ :=
      h.doSlabsAlloc size id tc
    · rw [hr'] at hr; cases hr
    · rw [hr'] at hr; cases hr; exact hnew
  alloc_fails size id tc hr := by
    obtain ⟨sl, e, tc', hr', hun⟩ | ⟨it', tc', s', free', hr', -⟩ := h.doSlabsAlloc size id tc
    · rw [hr']; exact hun.sameChunks
    · rw [hr'] at hr; cases hr
  newSlab_fails id hid hr := by
    obtain ⟨sl, e, hr', hun⟩ | ⟨u, cs, hr', -⟩ := h.doSlabsNewSlab hid
    · rw [hr']; exact hun.sameChunks
    · rw [hr'] at hr; cases hr

/-- **Chunks are conserved** in every run of the allocator. -/
theorem chunks_conserved {r : SlabsRun} (h : Reach SlabsRun.Init SlabsStep r) :
    ∃ free, Conserved r free := by
  have : ∃ free, r.store.SlabsOk free r.allocated := by
    refine Reach.invariant (I := fun r => ∃ free, r.store.SlabsOk free r.allocated) h ?_ ?_
    · exact fun _ h0 => ⟨_, SlabsOk.init h0⟩
    · exact fun _ _ ⟨_, hf⟩ hs => hf.step hs
  obtain ⟨free, hf⟩ := this
  exact ⟨free, hf.conserved⟩

/-- A run on pages of 256 bytes: the second chunk of the first page of class 1 is handed out. -/
theorem chunks_conserved_alloc : ∃ r : SlabsRun, r.allocated 1 = [.chunk 4192] ∧
    ∃ free, Conserved r free := by
  let st : Settings := { initDBSettings with itemSizeMax := 256 }
  let r : SlabsRun :=
    { store := { Store.initial 16 (fun _ => 0) (initSlabs st 1024 2 1 (some 4096))
        { Env.failing with reallocs := fun _ => true } with settings := st }
      allocated := fun _ => [] }
  have h0 : Reach SlabsRun.Init SlabsStep r :=
    .start ⟨⟨1024, 2, 1, some 4096,
      ⟨by decide, by decide, by decide, by decide, by decide, by decide, by decide⟩, rfl⟩,
      fun _ => rfl⟩
  have h1 := h0.next (.alloc r 90 1 0)
  exact ⟨_, by decide, chunks_conserved h1⟩

end Mdb
