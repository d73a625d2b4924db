import Mdb.Store.Alloc
import Mdb.Slabs.Classes

/-!
# Does an item fit its chunk?

`DoItemAlloc` chooses the slab class for the size of an item without its CAS field and adds the eight
bytes of the field afterwards; `ItemSizeOk` adds them before.

* `SameTable s t`: the settings and the chunk sizes are the same; every operation on items keeps
  them, in any store;
* `Slabs.largestChunk`, `slabsClsid_ne_zero_iff`: what fits some class of an `InitSlabs` table;
* **`alloc_fits_chunk`**: a new item fits its chunk exactly if its CAS field, added late, still does;
* **`size_check_agrees`**: `ItemSizeOk` and `DoItemAlloc` disagree exactly on the sizes that the CAS
  field takes past the largest chunk.
-/

namespace Mdb

/-! ## The settings and the chunk sizes never change -/

/-- The settings and the table of chunk sizes are the same. -/
structure SameTable (s t : Store) : Prop where
  settings : t.settings = s.settings
  powerLargest : t.slabs.powerLargest = s.slabs.powerLargest
  size : ∀ c, (t.slabs.slabclass c).size = (s.slabs.slabclass c).size

namespace SameTable

theorem refl (s : Store) : SameTable s s := ⟨rfl, rfl, fun _ => rfl⟩

theorem trans {s t u : Store} (h : SameTable s t) (h' : SameTable t u) : SameTable s u :=
  ⟨h'.settings.trans h.settings, h'.powerLargest.trans h.powerLargest,
    fun c => (h'.size c).trans (h.size c)⟩

section Items

variable {s t : Store} (h : SameTable s t) (it : Ptr) (hv : UInt32)

include h

/-- Nothing of the slabs' record was touched. -/
theorem keep {u : Store} (hst : u.settings = t.settings) (hsl : u.slabs = t.slabs) : SameTable s u :=
  h.trans ⟨hst, by rw [hsl], fun c => by rw [hsl]⟩

theorem tryLockUnlock (l : ℕ) : SameTable s (t.tryLockUnlock l) := h.keep rfl rfl

/-- One class changed, but not its chunk size. -/
theorem setClass {id : ℕ} {p : SlabClass} (hp : p.size = (t.slabs.slabclass id).size) :
    SameTable s (t.setClass id p) := by
  refine h.trans ⟨rfl, rfl, fun c => ?_⟩
  by_cases e : c = id
  · subst e
    simpa [Store.setClass] using hp
  · simp [Store.setClass, Function.update_of_ne e]

theorem doSlabsFree (size id : ℕ) : SameTable s (t.doSlabsFree it size id) := by
  unfold Store.doSlabsFree
  split_ifs
  · refine setClass (h.keep ?_ ?_) ?_ <;> rfl
  · exact h

theorem freeItem : SameTable s (t.freeItem it) := by
  refine doSlabsFree (h.keep ?_ ?_) it _ _ <;> rfl

theorem doItemRemove : SameTable s (t.doItemRemove it) := by
  unfold Store.doItemRemove
  split_ifs
  · refine freeItem (h.keep ?_ ?_) it <;> rfl
  · refine h.keep ?_ ?_ <;> rfl

theorem unlinkCore : SameTable s (t.unlinkCore it hv) := by
  obtain ⟨a, ha, -⟩ := (t.markUnlinked it).assocDelete_frame (t.heap.key it) hv
  unfold Store.unlinkCore
  rw [ha]
  exact h.keep rfl rfl

theorem doItemUnlink : SameTable s (t.doItemUnlink it hv) := by
  unfold Store.doItemUnlink
  split_ifs
  · exact (h.unlinkCore it hv).doItemRemove it
  · exact h

theorem doItemUpdateNolock : SameTable s (t.doItemUpdateNolock it) := by
  unfold Store.doItemUpdateNolock
  split_ifs <;> exact h.keep rfl rfl

theorem countReclaimed (id : ℕ) : SameTable s (t.countReclaimed id it) := by
  unfold Store.countReclaimed
  dsimp only
  split_ifs <;> exact h.keep rfl rfl

theorem countEvicted (id : ℕ) : SameTable s (t.countEvicted id it) := by
  unfold Store.countEvicted
  dsimp only
  split_ifs <;> exact h.keep rfl rfl

theorem pullFinish (st : LruStatus) (lock : ℕ) : SameTable s (t.pullFinish it st lock) := by
  unfold Store.pullFinish
  dsimp only
  split_ifs
  · refine tryLockUnlock (doItemRemove (h.keep ?_ ?_) it) lock <;> rfl
  · exact (h.doItemRemove it).tryLockUnlock lock

end Items

/-! ### The walk up a queue -/

/-- The store a visit to an item leaves behind has the same table. -/
def OfOutcome (s : Store) : Store.PullOutcome → Prop
  | .skip => True
  | .next t _ | .stop t _ _ _ => SameTable s t

section Walk

variable {s t : Store} (h : SameTable s t) (id : ℕ) (curLru : LruStatus) (totalChunks : UInt64)
  (doEvict : Bool) (curHv : UInt32) (it : Ptr) (hv : UInt32) (lock : ℕ)

include h

theorem pullSwitch : OfOutcome s (t.pullSwitch id curLru totalChunks doEvict it hv lock) := by
  unfold Store.pullSwitch
  split
  · split_ifs
    · exact h.keep rfl rfl
    · refine tryLockUnlock (doItemRemove (doItemUpdateNolock (h.keep ?_ ?_) it) it) lock <;> rfl
    · exact h
  · split_ifs
    · exact h
    · exact (h.countEvicted it id).doItemUnlink it hv
    · exact h.keep rfl rfl
    · exact h
  · exact h
  · exact h

theorem pullReferenced : OfOutcome s (t.pullReferenced id curLru totalChunks doEvict it hv lock) := by
  unfold Store.pullReferenced
  split_ifs
  · exact (((h.countReclaimed it id).doItemUnlink it hv).doItemRemove it).tryLockUnlock lock
  · exact h.pullSwitch id curLru totalChunks doEvict it hv lock

theorem pullLocked : OfOutcome s (t.pullLocked id curLru totalChunks doEvict it hv lock) := by
  unfold Store.pullLocked
  dsimp only
  split_ifs
  · refine tryLockUnlock (doItemUnlink (h.keep ?_ ?_) it hv) lock <;> rfl
  · refine pullReferenced (h.keep ?_ ?_) id curLru totalChunks doEvict it hv lock <;> rfl
  · refine pullReferenced (h.keep ?_ ?_) id curLru totalChunks doEvict it hv lock <;> rfl

theorem pullItem : OfOutcome s (t.pullItem id curLru totalChunks doEvict curHv it) := by
  unfold Store.pullItem
  split_ifs
  · trivial
  · exact h
  · obtain ⟨e, ht⟩ | ⟨l, e, ht⟩ := t.tryLock_cases (t.hv it)
    · rw [ht]
      exact h.keep rfl rfl
    · rw [ht]
      refine pullLocked (h.keep ?_ ?_) id curLru totalChunks doEvict it _ l <;> rfl

theorem pullLoop (fuel tries : ℕ) (search : Option Ptr) (removed : ℕ) : SameTable s
    (Store.pullLoop id curLru totalChunks doEvict curHv fuel tries t search removed).2 := by
  induction fuel generalizing t tries search removed with
  | zero => exact h
  | succ fuel ih =>
    cases tries with
    | zero => exact h
    | succ tries =>
      cases search with
      | none => exact h
      | some it =>
        have hit := h.pullItem id curLru totalChunks doEvict curHv it
        rw [Store.pullLoop]
        cases ho : t.pullItem id curLru totalChunks doEvict curHv it with
        | skip => exact ih h (tries + 1) _ removed
        | next u n => rw [ho] at hit; exact ih hit tries _ (removed + n)
        | stop u st n l => rw [ho] at hit; exact SameTable.pullFinish hit it st l

theorem itemLRUPullTail (origId : ℕ) :
    SameTable s (t.itemLRUPullTail origId curLru totalChunks doEvict curHv).2 := by
  unfold Store.itemLRUPullTail
  split_ifs
  · exact h
  · exact h.pullLoop _ curLru totalChunks doEvict curHv _ _ _ _

end Walk

/-! ### The allocator -/

section Alloc

variable {s t : Store} (h : SameTable s t) (id : ℕ)

include h

theorem growSlabList : SameTable s (t.growSlabList id).2 := by
  by_cases h1 : (t.slabs.slabclass id).slabs = (t.slabs.slabclass id).listSize
  · by_cases h2 : t.env.reallocs 0 = true
    · simp only [Store.growSlabList, if_pos h1, if_pos h2]
      refine setClass (h.keep ?_ ?_) ?_ <;> rfl
    · simp only [Store.growSlabList, if_pos h1, if_neg h2]
      exact h.keep rfl rfl
  · simp only [Store.growSlabList, if_neg h1]
    exact h

theorem memoryAllocator (size : ℕ) : SameTable s (t.memoryAllocator size).2 := by
  unfold Store.memoryAllocator
  split
  · dsimp only
    split
    · exact h.keep rfl rfl
    · split_ifs <;> exact h.keep rfl rfl
  · split_ifs
    · exact h
    · exact h.trans ⟨rfl, rfl, fun _ => rfl⟩

theorem freeAll (cs : List Ptr) : SameTable s (cs.foldl (fun s it => s.doSlabsFree it 0 id) t) := by
  induction cs generalizing t with
  | nil => exact h
  | cons it cs ih => exact ih (h.doSlabsFree it 0 id)

theorem carvePage (ptr len : ℕ) : SameTable s (t.carvePage ptr id len) := by
  obtain ⟨cs, hcs⟩ : ∃ cs, cs =
    pageChunks ptr (t.slabs.slabclass id).size (t.slabs.slabclass id).perslab := ⟨_, rfl⟩
  obtain ⟨u, hu⟩ : ∃ u, u = cs.foldl (fun s it => s.doSlabsFree it 0 id)
    { t with heap := t.heap.clear cs } := ⟨_, rfl⟩
  have hf : SameTable s u := by
    rw [hu]
    refine freeAll (h.keep ?_ ?_) id cs <;> rfl
  have e : t.carvePage ptr id len = { u with slabs := u.slabs.addPage id ptr len } := by
    rw [hu, hcs]
    rfl
  rw [e]
  exact hf.trans ⟨rfl, rfl, fun c => addPage_size u.slabs id ptr len c⟩

theorem doSlabsNewSlab : SameTable s (t.doSlabsNewSlab id).2 := by
  unfold Store.doSlabsNewSlab
  dsimp only
  split_ifs
  · exact h.trans ⟨rfl, rfl, fun _ => rfl⟩
  · have hg := h.growSlabList id
    split
    · rename_i u hu
      rw [hu] at hg
      exact hg
    · rename_i u hu
      rw [hu] at hg
      have hm := hg.memoryAllocator ((t.slabs.slabclass id).pageLen t.settings)
      split
      · rename_i w hw
        rw [hw] at hm
        exact hm
      · rename_i ptr w hw
        rw [hw] at hm
        exact hm.carvePage id ptr _

theorem popSlot (it : Ptr) (size : ℕ) : SameTable s (t.popSlot it size id) := by
  refine h.trans ⟨rfl, rfl, fun c => ?_⟩
  by_cases e : c = id
  · subst e
    simp [Store.popSlot, Store.setClass]
  · simp [Store.popSlot, Store.setClass, Function.update_of_ne e, Store.setRefcount, Store.setFlags]

theorem doSlabsAlloc (size : ℕ) (tc : UInt32) : SameTable s (t.doSlabsAlloc size id tc).2.2 := by
  unfold Store.doSlabsAlloc
  by_cases h1 : t.slabs.InRange id
  · rw [if_pos h1]
    have hr : SameTable s (if (t.slabs.slabclass id).slCurr ≠ 0 then (true, t)
        else t.doSlabsNewSlab id).2 := by
      split_ifs
      · exact h
      · exact h.doSlabsNewSlab id
    dsimp only
    generalize (if (t.slabs.slabclass id).slCurr ≠ 0 then (true, t)
        else t.doSlabsNewSlab id) = r at hr ⊢
    split
    · split_ifs
      · exact hr.popSlot id _ size
      · exact hr
    · exact hr
  · rw [if_neg h1]
    exact h

theorem pullFirst (curHv : UInt32) : SameTable s (if t.settings.lruMaintainerThread then t
    else (t.itemLRUPullTail id .cold 0 false curHv).2) := by
  split_ifs
  · exact h
  · exact h.itemLRUPullTail .cold 0 false curHv id

theorem pullAfter (totalChunks : UInt64) (curHv : UInt32) :
    SameTable s (if t.settings.lruMaintainerThread then
        let s := (t.itemLRUPullTail id .hot totalChunks false curHv).2
        let s := (s.itemLRUPullTail id .warm totalChunks false curHv).2
        (s.itemLRUPullTail id .cold totalChunks true curHv).2
      else (t.itemLRUPullTail id .cold 0 true curHv).2) := by
  split_ifs
  · exact ((h.itemLRUPullTail .hot _ false curHv id).itemLRUPullTail .warm _ false curHv
      id).itemLRUPullTail .cold _ true curHv id
  · exact h.itemLRUPullTail .cold 0 true curHv id

theorem allocLoop (ntotal : ℕ) (curHv : UInt32) (fuel : ℕ) (tc : UInt32) (n : ℕ) :
    SameTable s (Store.allocLoop ntotal id curHv fuel t tc n).2.2 := by
  induction fuel generalizing t tc n with
  | zero => exact h
  | succ fuel ih =>
    have h1 := h.pullFirst id curHv
    rw [Store.allocLoop]
    generalize (if t.settings.lruMaintainerThread = true then t
      else (t.itemLRUPullTail id .cold 0 false curHv).2) = u at h1 ⊢
    have h2 := h1.doSlabsAlloc id ntotal tc
    dsimp only
    generalize u.doSlabsAlloc ntotal id tc = r at h2 ⊢
    split
    · exact h2
    · exact ih (h2.pullAfter id _ curHv) _ _

end Alloc

end SameTable

/-! ## What fits a class -/

/-- The largest chunk size of a table. -/
def Slabs.largestChunk (sl : Slabs) : ℕ :=
  (Finset.Icc powerSmallest sl.powerLargest).sup fun c => (sl.slabclass c).size

/-- The table has the chunk sizes of another one; pages may have been added and used up. -/
structure Slabs.SameSizes (sl sl' : Slabs) : Prop where
  powerLargest : sl'.powerLargest = sl.powerLargest
  size : ∀ c, (sl'.slabclass c).size = (sl.slabclass c).size

theorem Slabs.SameSizes.largestChunk {sl sl' : Slabs} (h : sl.SameSizes sl') :
    sl'.largestChunk = sl.largestChunk := by
  unfold Slabs.largestChunk
  rw [h.powerLargest]
  exact Finset.sup_congr rfl fun c _ => h.size c

theorem initSlabsLoop_bounds (st : Settings) (num den fuel : ℕ) : ∀ i size t,
    i ≤ (initSlabsLoop st num den fuel i size t).1 ∧
      (initSlabsLoop st num den fuel i size t).1 ≤ i + fuel := by
  induction fuel with
  | zero => exact fun i size t => ⟨le_rfl, le_rfl⟩
  | succ fuel ih =>
    intro i size t
    rw [initSlabsLoop]
    split_ifs
    · obtain ⟨h1, h2⟩ := ih (i + 1) (alignUp size * num / den) _
      exact ⟨(Nat.le_succ i).trans h1, h2.trans (by omega)⟩
    · exact ⟨le_rfl, Nat.le_add_right _ _⟩

/-- Every table of `InitSlabs` has a class, and fewer than 64. -/
theorem initSlabs_powerLargest (st : Settings) (limit num den : ℕ) (base : Option ℕ) :
    powerSmallest ≤ (initSlabs st limit num den base).powerLargest ∧
      (initSlabs st limit num den base).powerLargest < maxNumberOfSlabClasses := by
  obtain ⟨h1, h2⟩ := initSlabsLoop_bounds st num den (maxNumberOfSlabClasses - 2) powerSmallest
    (sizeofItem + st.chunkSize) (Slabs.initial limit).slabclass
  refine ⟨h1, lt_of_le_of_lt h2 (by decide)⟩

/-- What fits the largest chunk has a class. -/
theorem slabsClsid_ne_zero_iff {s : Store} (hp : powerSmallest ≤ s.slabs.powerLargest) {size : ℕ}
    (h0 : 0 < size) : s.slabsClsid size ≠ 0 ↔ size ≤ s.slabs.largestChunk := by
  have e : s.slabsClsid size =
      Store.slabsClsidFrom s.slabs size (s.slabs.powerLargest + 1) powerSmallest :=
    if_neg h0.ne'
  rw [e]
  rcases slabsClsidFrom_spec s.slabs size (s.slabs.powerLargest + 1) powerSmallest
    ⟨le_rfl, hp⟩ (by omega) (fun c hc hlt => absurd hc.1 (by omega))
    with ⟨hz, hall⟩ | ⟨hr, hfit, -⟩
  · refine iff_of_false (fun hne => hne hz) (not_le.mpr ?_)
    exact (Finset.sup_lt_iff h0).mpr fun c hc => hall c (Finset.mem_Icc.mp hc)
  · refine iff_of_true (fun hz => absurd hr.1 (by rw [hz]; decide)) ?_
    have hmem := Finset.mem_Icc.mpr hr
    exact hfit.trans (Finset.le_sup (f := fun c => (s.slabs.slabclass c).size) hmem)

theorem slabsClsid_inRange {s : Store} (hp : powerSmallest ≤ s.slabs.powerLargest) {size : ℕ}
    (hne : s.slabsClsid size ≠ 0) : s.slabs.InRange (s.slabsClsid size) := by
  have h0 : size ≠ 0 := fun e => hne (if_pos e)
  have e : s.slabsClsid size =
      Store.slabsClsidFrom s.slabs size (s.slabs.powerLargest + 1) powerSmallest := if_neg h0
  rw [e] at hne ⊢
  rcases slabsClsidFrom_spec s.slabs size (s.slabs.powerLargest + 1) powerSmallest
    ⟨le_rfl, hp⟩ (by omega) (fun c hc hlt => absurd hc.1 (by omega)) with ⟨hz, -⟩ | ⟨hr, -⟩
  · exact absurd hz hne
  · exact hr

/-- For the sizes `InitSlabs` is meant for, the largest chunk is a whole page. -/
theorem ClassTable.largestChunk {sl : Slabs} {st : Settings} (h : ClassTable sl st) :
    sl.largestChunk = st.itemSizeMax := by
  have hlast : sl.InRange sl.powerLargest := ⟨h.powerLargest_pos, le_rfl⟩
  refine le_antisymm (Finset.sup_le fun c hc => ?_) ?_
  · have hc' : sl.InRange c := Finset.mem_Icc.mp hc
    exact (h.mono c _ hc' hlast hc'.2).trans h.last.le
  · rw [← h.last]
    exact Finset.le_sup (f := fun c => (sl.slabclass c).size) (Finset.mem_Icc.mpr hlast)

/-! ## The size of a new item -/

namespace Store

variable (s : Store)

/-- The class `DoItemAlloc` chooses; if it is 0 the item is refused. -/
def allocClsid (nkey : ℕ) (flags : Int32) (nbytes : ℕ) : ℕ :=
  s.slabsClsid (itemMakeHeader (nkey + 1) flags nbytes)

/-- `ItemSizeOk(nkey, flags, nbytes)`. -/
def itemSizeOk (nkey : ℕ) (flags : Int32) (nbytes : ℕ) : Bool :=
  let ntotal := itemMakeHeader (nkey + 1) flags nbytes
  let ntotal := if s.settings.useCas then ntotal + 8 else ntotal
  s.slabsClsid ntotal ≠ 0

/-- What `DoItemAlloc` returns: a chunk of the class it chose, with its header filled in. -/
theorem doItemAlloc_some {key : Key} {flags : Int32} {exptime : UInt32} {nbytes : ℕ} {curHv : UInt32}
    {it : Ptr} {t : Store} (h : s.doItemAlloc key flags exptime nbytes curHv = (some it, t)) :
    s.allocClsid key.bytes.length flags nbytes ≠ 0 ∧ ∃ u, SameTable s u ∧
      t = u.fillHeader it (s.allocClsid key.bytes.length flags nbytes) key flags exptime nbytes := by
  by_cases h0 : s.slabsClsid (itemMakeHeader (key.bytes.length + 1) flags nbytes) = 0
  · simp only [doItemAlloc, if_pos h0] at h
    cases h
  refine ⟨h0, ?_⟩
  obtain ⟨-, he⟩ | ⟨ntotal, id, ⟨-, -, hid⟩, hnone, hsome⟩ :=
    Inv.doItemAlloc_cases s key flags exptime nbytes curHv
  · rw [he] at h
    cases h
  · obtain ⟨o, n, s', hloop⟩ : ∃ o n s', allocLoop ntotal id curHv 5 s 0 0 = (o, n, s') :=
      ⟨_, _, _, rfl⟩
    have hl : SameTable s s' := by
      have := (SameTable.refl s).allocLoop id ntotal curHv 5 0 0
      rwa [hloop] at this
    cases o with
    | none =>
      obtain ⟨st, he⟩ := hnone n s' hloop
      rw [he] at h
      cases h
    | some it' =>
      obtain ⟨st, he⟩ := hsome it' n s' hloop
      obtain ⟨h1, h2⟩ := Prod.mk.inj (he.symm.trans h)
      cases Option.some.inj h1
      rw [allocClsid, ← hid]
      exact ⟨{ s' with itemStats := st }, hl.keep rfl rfl, h2.symm⟩

end Store

variable {s : Store} {st : Settings} {limit num den : ℕ} {base : Option ℕ}

/-- **An item fits its chunk** exactly if its CAS field does, which is added after the class has been
chosen: for every table of `InitSlabs`, every key, flags and `nbytes`, with `use_cas` on or off. -/
theorem alloc_fits_chunk (hs : (initSlabs st limit num den base).SameSizes s.slabs) {key : Key}
    {flags : Int32} {exptime : UInt32} {nbytes : ℕ} {curHv : UInt32} (hn : nbytes < 2 ^ 31) {it : Ptr}
    {t : Store} (h : s.doItemAlloc key flags exptime nbytes curHv = (some it, t)) :
    t.heap.ntotal it ≤ (t.slabs.slabclass (clearLru (t.heap.slabsClsid it))).size ↔
      (s.settings.useCas = true → itemMakeHeader (key.bytes.length + 1) flags nbytes + 8 ≤
        (s.slabs.slabclass (s.allocClsid key.bytes.length flags nbytes)).size) := by
  obtain ⟨hne, u, hu, rfl⟩ := s.doItemAlloc_some h
  obtain ⟨hp, hlt⟩ := initSlabs_powerLargest st limit num den base
  rw [← hs.powerLargest] at hp hlt
  have hin : s.slabs.InRange (s.allocClsid key.bytes.length flags nbytes) :=
    slabsClsid_inRange hp hne
  have hfit : itemMakeHeader (key.bytes.length + 1) flags nbytes ≤
      (s.slabs.slabclass (s.allocClsid key.bytes.length flags nbytes)).size := s.slabsClsid_fits hne
  obtain ⟨id, hid⟩ : ∃ id, id = s.allocClsid key.bytes.length flags nbytes := ⟨_, rfl⟩
  rw [← hid] at hin hfit ⊢
  have hid64 : id % 64 = id := Nat.mod_eq_of_lt (lt_of_le_of_lt hin.2 hlt)
  have hcls : clearLru ((u.fillHeader it id key flags exptime nbytes).heap.slabsClsid it) = id := by
    have := (clearLru_or id (u.allocLru exptime)).1
    rw [show clearLru id = id from hid64] at this
    simpa [Store.fillHeader] using this
  have htot : (u.fillHeader it id key flags exptime nbytes).heap.ntotal it =
      s.allocSize key flags nbytes := by
    rw [s.allocSize_eq key flags hn, ← hu.settings]
    simp [Store.fillHeader, Heap.ntotal, Heap.nkey]
  have hsize : ((u.fillHeader it id key flags exptime nbytes).slabs.slabclass id).size =
      (s.slabs.slabclass id).size := hu.size id
  rw [hcls, htot, hsize, Store.allocSize]
  split_ifs with hc
  · exact ⟨fun hle _ => hle, fun hle => hle hc⟩
  · exact iff_of_true hfit fun hc' => absurd hc' hc

/-- A store with pages of 256 bytes, and chunks of 96 and 256 bytes. -/
def twoClasses : Store :=
  { Store.initial 1 (fun _ => 0) (initSlabs { initDBSettings with itemSizeMax := 256 } 1024 2 1
      (some 4096)) { Env.failing with reallocs := fun _ => true } with
    settings := { initDBSettings with itemSizeMax := 256 } }

theorem twoClasses_sizes :
    (initSlabs { initDBSettings with itemSizeMax := 256 } 1024 2 1 (some 4096)).SameSizes
      twoClasses.slabs := ⟨rfl, fun _ => rfl⟩

/-- Three bytes of data fit a chunk of 96 bytes, with the CAS field. -/
theorem alloc_fits_chunk_small : ∃ t : Store,
    twoClasses.doItemAlloc (.byte 97) 0 0 3 0 = (some (.chunk 4192), t) ∧
    t.heap.ntotal (.chunk 4192) ≤
      (t.slabs.slabclass (clearLru (t.heap.slabsClsid (.chunk 4192)))).size := by
  have h : twoClasses.doItemAlloc (.byte 97) 0 0 3 0 =
      (some (.chunk 4192), (twoClasses.doItemAlloc (.byte 97) 0 0 3 0).2) :=
    Prod.ext (by decide +kernel) rfl
  exact ⟨_, h, (alloc_fits_chunk twoClasses_sizes (by norm_num) h).mpr fun _ => by decide +kernel⟩

/-- **An item can be larger than its chunk**: with 32 bytes of data it takes 89 bytes and the CAS field,
97 bytes in a chunk of 96. -/
theorem alloc_overflows_chunk : ∃ it, (twoClasses.doItemAlloc (.byte 97) 0 0 32 0).1 = some it ∧
    ((twoClasses.doItemAlloc (.byte 97) 0 0 32 0).2.slabs.slabclass (clearLru
      ((twoClasses.doItemAlloc (.byte 97) 0 0 32 0).2.heap.slabsClsid it))).size <
      (twoClasses.doItemAlloc (.byte 97) 0 0 32 0).2.heap.ntotal it :=
  ⟨.chunk 4192, by decide +kernel, by decide +kernel⟩

/-- **`ItemSizeOk` agrees with `DoItemAlloc`** except on the sizes that the CAS field takes past the
largest chunk, which is a whole page for every sensible table. -/
theorem size_check_agrees (hs : (initSlabs st limit num den base).SameSizes s.slabs) (nkey : ℕ)
    (flags : Int32) (nbytes : ℕ) :
    ((s.itemSizeOk nkey flags nbytes = true ↔ s.allocClsid nkey flags nbytes ≠ 0) ↔
      ¬ (s.settings.useCas = true ∧
        itemMakeHeader (nkey + 1) flags nbytes ≤ s.slabs.largestChunk ∧
        s.slabs.largestChunk < itemMakeHeader (nkey + 1) flags nbytes + 8)) ∧
    (0 < st.itemSizeMax → chunkAlignBytes ∣ st.itemSizeMax → 0 < den → den < num →
      s.slabs.largestChunk = st.itemSizeMax) := by
  have hp : powerSmallest ≤ s.slabs.powerLargest :=
    hs.powerLargest ▸ (initSlabs_powerLargest st limit num den base).1
  obtain ⟨n, hn⟩ : ∃ n, n = itemMakeHeader (nkey + 1) flags nbytes := ⟨_, rfl⟩
  have hpos : 0 < n := by
    rw [hn, itemMakeHeader, sizeofItem]
    omega
  refine ⟨?_, fun hmax hdvd hden hfac => ?_⟩
  · have h0 := slabsClsid_ne_zero_iff hp hpos
    have h8 := slabsClsid_ne_zero_iff hp (Nat.add_pos_left hpos 8)
    unfold Store.allocClsid Store.itemSizeOk
    rw [← hn, h0]
    by_cases hc : s.settings.useCas = true
    · simp only [hc, if_true, decide_eq_true_eq, true_and, h8]
      omega
    · simp [hc, h0]
  · rw [hs.largestChunk]
    exact (initSlabs_classTable hmax hdvd hden hfac limit base).largestChunk

/-- Both accept three bytes of data. -/
theorem size_check_agrees_small : twoClasses.itemSizeOk 1 0 3 = true ∧
    (twoClasses.itemSizeOk 1 0 3 = true ↔ twoClasses.allocClsid 1 0 3 ≠ 0) :=
  ⟨by decide +kernel, (size_check_agrees twoClasses_sizes 1 0 3).1.mpr (by decide +kernel)⟩

/-- **`ItemSizeOk` refuses what `DoItemAlloc` takes**: 193 bytes of data make 251 bytes without and 259
with the CAS field, and the largest chunk has 256. -/
theorem size_check_disagrees : twoClasses.settings.useCas = true ∧
    twoClasses.itemSizeOk 1 0 193 = false ∧ twoClasses.allocClsid 1 0 193 = 2 :=
  ⟨rfl, by decide +kernel, by decide +kernel⟩

end Mdb
