import Mdb.Slabs.Freelist

/-!
# Pages

* `PagesOk sl st`: the pages of all classes lie apart, and the counters of each class are right;
* `PagesOk.chunks_nodup`, `PagesOk.chunks_disjoint`: so the chunks cut out of them are distinct;
* `PagesOk.addPage`: a fresh page joins; `PagesOk.chunks_length_mul_le`: there are few chunks.
-/

namespace Mdb

open Dll

/-- The classes agree on everything that places and counts chunks; the list of pages may have got
more room. -/
structure SlabClass.SamePages (p p' : SlabClass) : Prop where
  size : p'.size = p.size
  perslab : p'.perslab = p.perslab
  slabs : p'.slabs = p.slabs
  slabList : p'.slabList = p.slabList
  listSize : p.listSize ≤ p'.listSize

/-- No page came or went. -/
structure Slabs.SamePages (sl sl' : Slabs) : Prop where
  cls : ∀ c, (sl.slabclass c).SamePages (sl'.slabclass c)
  memLimit : sl'.memLimit = sl.memLimit
  memMalloced : sl'.memMalloced = sl.memMalloced
  powerLargest : sl'.powerLargest = sl.powerLargest
  memBase : sl'.memBase = sl.memBase
  memCurrent : sl.memCurrent ≤ sl'.memCurrent

/-- **The pages of a store.** -/
structure PagesOk (sl : Slabs) (st : Settings) : Prop where
  apart : ∀ c c' p p', p ∈ (sl.slabclass c).slabList → p' ∈ (sl.slabclass c').slabList →
    (c, p) ≠ (c', p') →
    p + (sl.slabclass c).pageLen st ≤ p' ∨ p' + (sl.slabclass c').pageLen st ≤ p
  nodup : ∀ c, (sl.slabclass c).slabList.Nodup
  current : sl.memBase ≠ none → ∀ c, ∀ p ∈ (sl.slabclass c).slabList,
    p + (sl.slabclass c).pageLen st ≤ sl.memCurrent
  inRange : ∀ c, ∀ p ∈ (sl.slabclass c).slabList, sl.InRange c
  slabs_eq : ∀ c, (sl.slabclass c).slabs = (sl.slabclass c).slabList.length
  slabs_le : ∀ c, (sl.slabclass c).slabs ≤ (sl.slabclass c).listSize
  malloced : ∀ c, (sl.slabclass c).slabs * (sl.slabclass c).pageLen st ≤ sl.memMalloced
  bound : ∀ c, (sl.slabclass c).slabs * (sl.slabclass c).pageLen st ≤
    max ((sl.slabclass c).pageLen st) sl.memLimit

theorem mem_pageChunks {ptr size perslab : ℕ} {x : Ptr} :
    x ∈ pageChunks ptr size perslab ↔ ∃ i < perslab, x = .chunk (ptr + i * size) := by
  simp [pageChunks, eq_comm]

theorem pageChunks_nodup {ptr size perslab : ℕ} (h : 1 ≤ size) :
    (pageChunks ptr size perslab).Nodup := by
  refine List.Nodup.map (fun i j e => ?_) List.nodup_range
  have e' : ptr + i * size = ptr + j * size := Ptr.chunk.inj e
  exact Nat.eq_of_mul_eq_mul_right h (Nat.add_left_cancel e')

/-- A chunk lies inside its page. -/
theorem mem_pageChunks_bounds {ptr size perslab len : ℕ} {x : Ptr} (hs : 1 ≤ size)
    (hl : size * perslab ≤ len) (hx : x ∈ pageChunks ptr size perslab) :
    ∃ a, x = .chunk a ∧ ptr ≤ a ∧ a < ptr + len := by
  obtain ⟨i, hi, rfl⟩ := mem_pageChunks.mp hx
  refine ⟨_, rfl, Nat.le_add_right _ _, ?_⟩
  have : (i + 1) * size ≤ size * perslab := by
    rw [Nat.mul_comm size]
    exact Nat.mul_le_mul_right size hi
  rw [Nat.add_mul] at this
  omega

namespace Slabs.Valid

variable {sl sl' : Slabs} {st : Settings} {c : ℕ}

theorem size_pos (h : sl.Valid st) (hc : sl.InRange c) : 1 ≤ (sl.slabclass c).size :=
  le_trans (by decide) (h.size_ge c hc)

theorem mul_le_pageLen (h : sl.Valid st) (hc : sl.InRange c) :
    (sl.slabclass c).size * (sl.slabclass c).perslab ≤ (sl.slabclass c).pageLen st := by
  unfold SlabClass.pageLen
  split_ifs
  · exact h.fits c hc
  · exact le_rfl

theorem pageLen_le (h : sl.Valid st) (hc : sl.InRange c) :
    (sl.slabclass c).pageLen st ≤ st.itemSizeMax := by
  unfold SlabClass.pageLen
  split_ifs
  · exact le_rfl
  · exact h.fits c hc

theorem pageLen_pos (h : sl.Valid st) (hc : sl.InRange c) :
    1 ≤ (sl.slabclass c).pageLen st :=
  (Nat.mul_pos (h.size_pos hc) (h.perslab_pos c hc)).trans_le (h.mul_le_pageLen hc)

theorem samePages (h : sl.Valid st) (e : sl.SamePages sl') : sl'.Valid st := by
  have hr : ∀ c, sl'.InRange c → sl.InRange c := fun c hc => ⟨hc.1, e.powerLargest ▸ hc.2⟩
  refine ⟨e.powerLargest ▸ h.powerLargest_lt, fun c hc => ?_, fun c hc => ?_, fun c hc => ?_,
    h.itemSizeMax_le, e.memLimit ▸ h.memLimit_pos, e.memLimit ▸ h.memLimit_le⟩
  · rw [(e.cls c).perslab]; exact h.perslab_pos c (hr c hc)
  · rw [(e.cls c).size]; exact h.size_ge c (hr c hc)
  · rw [(e.cls c).size, (e.cls c).perslab]; exact h.fits c (hr c hc)

theorem size_le (h : sl.Valid st) (hc : sl.InRange c) : (sl.slabclass c).size ≤ st.itemSizeMax :=
  (Nat.le_mul_of_pos_right _ (h.perslab_pos c hc)).trans (h.fits c hc)

end Slabs.Valid

theorem slabsClsidFrom_fits (sl : Slabs) (size fuel res : ℕ)
    (h : Store.slabsClsidFrom sl size fuel res ≠ 0) :
    size ≤ (sl.slabclass (Store.slabsClsidFrom sl size fuel res)).size := by
  induction fuel generalizing res with
  | zero => exact absurd rfl h
  | succ fuel ih =>
    unfold Store.slabsClsidFrom at h ⊢
    split_ifs at h ⊢ with h1 h2
    · exact absurd rfl h
    · exact ih _ h
    · exact not_lt.mp h1

theorem slabsClsidFrom_congr {sl sl' : Slabs} (hp : sl'.powerLargest = sl.powerLargest)
    (hs : ∀ c, (sl'.slabclass c).size = (sl.slabclass c).size) (size fuel res : ℕ) :
    Store.slabsClsidFrom sl' size fuel res = Store.slabsClsidFrom sl size fuel res := by
  induction fuel generalizing res with
  | zero => rfl
  | succ fuel ih => rw [Store.slabsClsidFrom, Store.slabsClsidFrom, hs, hp, ih]

theorem Store.slabsClsid_congr {s s' : Store} (hp : s'.slabs.powerLargest = s.slabs.powerLargest)
    (hs : ∀ c, (s'.slabs.slabclass c).size = (s.slabs.slabclass c).size) (size : ℕ) :
    s'.slabsClsid size = s.slabsClsid size := by
  rw [Store.slabsClsid, Store.slabsClsid, hp, slabsClsidFrom_congr hp hs]

/-- The class that `SlabsClsid` chooses has chunks of that size. -/
theorem Store.slabsClsid_fits (s : Store) {size : ℕ} (h : s.slabsClsid size ≠ 0) :
    size ≤ (s.slabs.slabclass (s.slabsClsid size)).size := by
  unfold Store.slabsClsid at h ⊢
  split_ifs at h ⊢
  · exact absurd rfl h
  · exact slabsClsidFrom_fits _ _ _ _ h

theorem SlabClass.SamePages.refl (p : SlabClass) : p.SamePages p := ⟨rfl, rfl, rfl, rfl, le_rfl⟩

theorem SlabClass.SamePages.trans {p p' p'' : SlabClass} (h : p.SamePages p')
    (h' : p'.SamePages p'') : p.SamePages p'' :=
  ⟨h'.size.trans h.size, h'.perslab.trans h.perslab, h'.slabs.trans h.slabs,
    h'.slabList.trans h.slabList, h.listSize.trans h'.listSize⟩

theorem SlabClass.SamePages.pageLen {p p' : SlabClass} (e : p.SamePages p') (st : Settings) :
    p'.pageLen st = p.pageLen st := by
  rw [SlabClass.pageLen, SlabClass.pageLen, e.size, e.perslab]

theorem SlabClass.SamePages.chunks {sl sl' : Slabs} {c : ℕ}
    (e : (sl.slabclass c).SamePages (sl'.slabclass c)) : sl'.chunks c = sl.chunks c := by
  rw [Slabs.chunks, Slabs.chunks, e.slabList, e.size, e.perslab]

theorem Slabs.SamePages.chunks {sl sl' : Slabs} (e : sl.SamePages sl') (c : ℕ) :
    sl'.chunks c = sl.chunks c := (e.cls c).chunks

/-- Pages may have been added. -/
structure Slabs.Grows (sl sl' : Slabs) : Prop where
  powerLargest : sl'.powerLargest = sl.powerLargest
  sizes : ∀ c, (sl'.slabclass c).size = (sl.slabclass c).size
  chunks : ∀ c, ∀ x ∈ sl.chunks c, x ∈ sl'.chunks c

theorem Slabs.Grows.trans {sl₁ sl₂ sl₃ : Slabs} (h : sl₁.Grows sl₂) (h' : sl₂.Grows sl₃) :
    sl₁.Grows sl₃ :=
  ⟨h'.powerLargest.trans h.powerLargest, fun c => (h'.sizes c).trans (h.sizes c),
    fun c x hx => h'.chunks c x (h.chunks c x hx)⟩

section AddPage

variable (sl : Slabs) (id ptr len c : ℕ)

theorem addPage_size : ((sl.addPage id ptr len).slabclass c).size = (sl.slabclass c).size := by
  by_cases e : c = id
  · subst e; simp [Slabs.addPage]
  · simp [Slabs.addPage, e]

theorem addPage_perslab :
    ((sl.addPage id ptr len).slabclass c).perslab = (sl.slabclass c).perslab := by
  by_cases e : c = id
  · subst e; simp [Slabs.addPage]
  · simp [Slabs.addPage, e]

theorem addPage_listSize :
    ((sl.addPage id ptr len).slabclass c).listSize = (sl.slabclass c).listSize := by
  by_cases e : c = id
  · subst e; simp [Slabs.addPage]
  · simp [Slabs.addPage, e]

theorem addPage_requested :
    ((sl.addPage id ptr len).slabclass c).requested = (sl.slabclass c).requested := by
  by_cases e : c = id
  · subst e; simp [Slabs.addPage]
  · simp [Slabs.addPage, e]

theorem addPage_pageLen (st : Settings) :
    ((sl.addPage id ptr len).slabclass c).pageLen st = (sl.slabclass c).pageLen st := by
  rw [SlabClass.pageLen, SlabClass.pageLen, addPage_size, addPage_perslab]

theorem addPage_slabList : ((sl.addPage id ptr len).slabclass c).slabList =
    (sl.slabclass c).slabList ++ if c = id then [ptr] else [] := by
  by_cases e : c = id
  · subst e; simp [Slabs.addPage]
  · simp [Slabs.addPage, e]

theorem addPage_slabs : ((sl.addPage id ptr len).slabclass c).slabs =
    (sl.slabclass c).slabs + if c = id then 1 else 0 := by
  by_cases e : c = id
  · subst e; simp [Slabs.addPage]
  · simp [Slabs.addPage, e]

theorem addPage_chunks : (sl.addPage id ptr len).chunks c = sl.chunks c ++
    if c = id then pageChunks ptr (sl.slabclass id).size (sl.slabclass id).perslab else [] := by
  rw [Slabs.chunks, Slabs.chunks, addPage_slabList, addPage_size, addPage_perslab]
  split_ifs with e
  · subst e; simp
  · simp

theorem Slabs.Valid.addPage {sl : Slabs} {st : Settings} (h : sl.Valid st) :
    (sl.addPage id ptr len).Valid st where
  powerLargest_lt := h.powerLargest_lt
  perslab_pos c hc := by rw [addPage_perslab]; exact h.perslab_pos c hc
  size_ge c hc := by rw [addPage_size]; exact h.size_ge c hc
  fits c hc := by rw [addPage_size, addPage_perslab]; exact h.fits c hc
  itemSizeMax_le := h.itemSizeMax_le
  memLimit_pos := h.memLimit_pos
  memLimit_le := h.memLimit_le

end AddPage

namespace PagesOk

variable {sl sl' : Slabs} {st : Settings} {c c' : ℕ} {x : Ptr}

theorem samePages (h : PagesOk sl st) (e : sl.SamePages sl') : PagesOk sl' st where
  apart c c' p p' hp hp' hne := by
    rw [(e.cls c).slabList] at hp
    rw [(e.cls c').slabList] at hp'
    rw [(e.cls c).pageLen, (e.cls c').pageLen]
    exact h.apart c c' p p' hp hp' hne
  nodup c := by rw [(e.cls c).slabList]; exact h.nodup c
  current hb c p hp := by
    rw [(e.cls c).slabList] at hp
    rw [(e.cls c).pageLen]
    exact (h.current (e.memBase ▸ hb) c p hp).trans e.memCurrent
  inRange c p hp := by
    rw [(e.cls c).slabList] at hp
    exact ⟨(h.inRange c p hp).1, e.powerLargest ▸ (h.inRange c p hp).2⟩
  slabs_eq c := by rw [(e.cls c).slabs, (e.cls c).slabList]; exact h.slabs_eq c
  slabs_le c := by rw [(e.cls c).slabs]; exact (h.slabs_le c).trans (e.cls c).listSize
  malloced c := by rw [(e.cls c).slabs, (e.cls c).pageLen, e.memMalloced]; exact h.malloced c
  bound c := by rw [(e.cls c).slabs, (e.cls c).pageLen, e.memLimit]; exact h.bound c

theorem mem_chunks : x ∈ sl.chunks c ↔ ∃ p ∈ (sl.slabclass c).slabList,
    x ∈ pageChunks p (sl.slabclass c).size (sl.slabclass c).perslab := by
  simp [Slabs.chunks]

/-- The pages of two chunks that are the same chunk are the same page. -/
theorem page_unique (h : PagesOk sl st) (hv : sl.Valid st) {p p' : ℕ}
    (hp : p ∈ (sl.slabclass c).slabList) (hp' : p' ∈ (sl.slabclass c').slabList)
    (hx : x ∈ pageChunks p (sl.slabclass c).size (sl.slabclass c).perslab)
    (hx' : x ∈ pageChunks p' (sl.slabclass c').size (sl.slabclass c').perslab) :
    (c, p) = (c', p') := by
  have hc := h.inRange c p hp
  have hc' := h.inRange c' p' hp'
  obtain ⟨a, rfl, h1, h2⟩ := mem_pageChunks_bounds (hv.size_pos hc) (hv.mul_le_pageLen hc) hx
  obtain ⟨a', e, h3, h4⟩ := mem_pageChunks_bounds (hv.size_pos hc') (hv.mul_le_pageLen hc') hx'
  cases e
  by_contra hne
  have := h.apart c c' p p' hp hp' hne
  omega

/-- **Chunks of different classes are different.** -/
theorem chunks_disjoint (h : PagesOk sl st) (hv : sl.Valid st) (hx : x ∈ sl.chunks c)
    (hx' : x ∈ sl.chunks c') : c = c' := by
  obtain ⟨p, hp, hx⟩ := mem_chunks.mp hx
  obtain ⟨p', hp', hx'⟩ := mem_chunks.mp hx'
  exact (Prod.ext_iff.mp (h.page_unique hv hp hp' hx hx')).1

/-- **No chunk of a class comes twice.** -/
theorem chunks_nodup (h : PagesOk sl st) (hv : sl.Valid st) (c : ℕ) : (sl.chunks c).Nodup := by
  refine List.nodup_flatMap.mpr ⟨fun p hp => pageChunks_nodup (hv.size_pos (h.inRange c p hp)), ?_⟩
  refine (h.nodup c).imp_of_mem fun {p p'} hp hp' hne => ?_
  exact fun x hx hx' => hne (Prod.ext_iff.mp (h.page_unique hv hp hp' hx hx')).2

theorem chunks_length (h : PagesOk sl st) (c : ℕ) :
    (sl.chunks c).length = (sl.slabclass c).slabs * (sl.slabclass c).perslab := by
  rw [h.slabs_eq, Slabs.chunks, List.length_flatMap]
  simp [pageChunks]

/-- **The chunks of a class are few**: they fit in 1 GB. -/
theorem chunks_length_mul_size_le (h : PagesOk sl st) (hv : sl.Valid st) (c : ℕ) :
    (sl.chunks c).length * (sl.slabclass c).size ≤ 2 ^ 30 := by
  rw [h.chunks_length]
  by_cases hs : (sl.slabclass c).slabList = []
  · rw [h.slabs_eq, hs]; simp
  · obtain ⟨p, l, hl⟩ := List.exists_cons_of_ne_nil hs
    have hc := h.inRange c p (by rw [hl]; simp)
    calc (sl.slabclass c).slabs * (sl.slabclass c).perslab * (sl.slabclass c).size
        = (sl.slabclass c).slabs * ((sl.slabclass c).size * (sl.slabclass c).perslab) := by ring
      _ ≤ (sl.slabclass c).slabs * (sl.slabclass c).pageLen st :=
          Nat.mul_le_mul_left _ (hv.mul_le_pageLen hc)
      _ ≤ max ((sl.slabclass c).pageLen st) sl.memLimit := h.bound c
      _ ≤ 2 ^ 30 := max_le ((hv.pageLen_le hc).trans hv.itemSizeMax_le) hv.memLimit_le

theorem chunks_length_mul_le (h : PagesOk sl st) (hv : sl.Valid st) (c : ℕ) :
    sizeofItem * (sl.chunks c).length ≤ 2 ^ 30 := by
  by_cases hs : (sl.slabclass c).slabList = []
  · rw [h.chunks_length, h.slabs_eq, hs]; simp
  · obtain ⟨p, l, hl⟩ := List.exists_cons_of_ne_nil hs
    have hc := h.inRange c p (by rw [hl]; simp)
    rw [Nat.mul_comm]
    exact (Nat.mul_le_mul_left _ (hv.size_ge c hc)).trans (h.chunks_length_mul_size_le hv c)

theorem chunks_length_le (h : PagesOk sl st) (hv : sl.Valid st) (c : ℕ) :
    (sl.chunks c).length ≤ 2 ^ 30 :=
  (Nat.le_mul_of_pos_left _ (by decide)).trans (h.chunks_length_mul_le hv c)

/-- **A fresh page joins.** -/
theorem addPage (h : PagesOk sl st) {id ptr : ℕ} (hid : sl.InRange id) (hv : sl.Valid st)
    (hfresh : ∀ c, ∀ p ∈ (sl.slabclass c).slabList,
      ptr + (sl.slabclass id).pageLen st ≤ p ∨ p + (sl.slabclass c).pageLen st ≤ ptr)
    (hcur : sl.memBase ≠ none → ptr + (sl.slabclass id).pageLen st ≤ sl.memCurrent)
    (hroom : (sl.slabclass id).slabs < (sl.slabclass id).listSize)
    (hlim : sl.memLimit < sl.memMalloced + (sl.slabclass id).pageLen st →
      (sl.slabclass id).slabs = 0) :
    PagesOk (sl.addPage id ptr ((sl.slabclass id).pageLen st)) st := by
  -- a page of the new lists is an old one or the new one
  have hmem : ∀ c p, p ∈ ((sl.addPage id ptr ((sl.slabclass id).pageLen st)).slabclass c).slabList →
      p ∈ (sl.slabclass c).slabList ∨ c = id ∧ p = ptr := by
    intro c p hp
    rw [addPage_slabList, List.mem_append] at hp
    refine hp.imp_right fun hp => ?_
    split_ifs at hp with e
    · exact ⟨e, by simpa using hp⟩
    · cases hp
  refine ⟨fun c c' p p' hp hp' hne => ?_, fun c => ?_, fun hb c p hp => ?_, fun c p hp => ?_,
    fun c => ?_, fun c => ?_, fun c => ?_, fun c => ?_⟩
  · rw [addPage_pageLen, addPage_pageLen]
    rcases hmem c p hp with h1 | ⟨rfl, rfl⟩ <;> rcases hmem c' p' hp' with h2 | ⟨rfl, rfl⟩
    · exact h.apart c c' p p' h1 h2 hne
    · exact (hfresh c p h1).symm
    · exact hfresh c' p' h2
    · exact absurd rfl hne
  · rw [addPage_slabList]
    split_ifs with e
    · subst e
      refine List.nodup_append.mpr ⟨h.nodup c, List.nodup_singleton ptr, fun p hp q hq e => ?_⟩
      rw [List.mem_singleton] at hq
      have h1 := hfresh c p hp
      have h2 := hv.pageLen_pos hid
      rw [e, hq] at h1
      omega
    · rw [List.append_nil]; exact h.nodup c
  · rw [addPage_pageLen]
    rcases hmem c p hp with hp | ⟨rfl, rfl⟩
    · exact h.current hb c p hp
    · exact hcur hb
  · rcases hmem c p hp with hp | ⟨rfl, rfl⟩
    · exact h.inRange c p hp
    · exact hid
  · rw [addPage_slabs, addPage_slabList, List.length_append, h.slabs_eq]
    split_ifs <;> rfl
  · rw [addPage_slabs, addPage_listSize]
    split_ifs with e
    · subst e; exact hroom
    · exact h.slabs_le c
  · rw [addPage_slabs, addPage_pageLen, Nat.add_mul]
    have := h.malloced c
    split_ifs with e
    · subst e
      simp only [Slabs.addPage]
      omega
    · simp only [Slabs.addPage]
      omega
  · rw [addPage_slabs, addPage_pageLen, Nat.add_mul]
    simp only [Slabs.addPage]
    split_ifs with e
    · subst e
      by_cases hl : sl.memLimit < sl.memMalloced + (sl.slabclass c).pageLen st
      · rw [hlim hl]; simp
      · have := h.malloced c
        exact le_max_of_le_right (by omega)
    · rw [Nat.zero_mul, Nat.add_zero]; exact h.bound c

end PagesOk

end Mdb
