import Mdb.Slabs.Pages

/-!
# Chunks are conserved

* `SlabsOk … free alloc`: the chunks of every class are exactly those on its freelist and those
  handed out;
* `SlabsOk.doSlabsFree`, `SlabsOk.doSlabsNewSlab`, `SlabsOk.doSlabsAlloc`: what each operation does,
  whether it succeeds or fails.
-/

namespace Mdb

open Dll

/-- **The chunks of a class are on its freelist or handed out.** -/
structure SlabsOk (next prev : Ptr → Option Ptr) (flags : Ptr → ItemFlags) (clsid : Ptr → ℕ)
    (sl : Slabs) (st : Settings) (free alloc : ℕ → List Ptr) : Prop where
  freelists : FreelistsOk next prev flags clsid sl.slabclass free
  pages : PagesOk sl st
  valid : sl.Valid st
  perm : ∀ c, (free c ++ alloc c).Perm (sl.chunks c)

/-- The chunks of a store. -/
abbrev Store.SlabsOk (s : Store) (free alloc : ℕ → List Ptr) : Prop :=
  Mdb.SlabsOk s.heap.next s.heap.prev s.heap.itFlags s.heap.slabsClsid s.slabs s.settings free alloc

/-- Nothing about the chunks has changed: freelists, pages and counters are the same. -/
structure Slabs.Unchanged (sl sl' : Slabs) : Prop where
  pages : sl.SamePages sl'
  slots : ∀ c, (sl'.slabclass c).slots = (sl.slabclass c).slots
  slCurr : ∀ c, (sl'.slabclass c).slCurr = (sl.slabclass c).slCurr
  requested : ∀ c, (sl'.slabclass c).requested = (sl.slabclass c).requested

theorem Slabs.SamePages.refl (sl : Slabs) : sl.SamePages sl :=
  ⟨fun _ => ⟨rfl, rfl, rfl, rfl, le_rfl⟩, rfl, rfl, rfl, rfl, le_rfl⟩

theorem Slabs.Unchanged.refl (sl : Slabs) : sl.Unchanged sl :=
  ⟨.refl sl, fun _ => rfl, fun _ => rfl, fun _ => rfl⟩

namespace SlabsOk

section

variable {next prev : Ptr → Option Ptr} {flags : Ptr → ItemFlags} {clsid : Ptr → ℕ}
  {sl sl' : Slabs} {st : Settings} {free alloc : ℕ → List Ptr} {c c' : ℕ} {x : Ptr}

theorem mem_chunks (h : SlabsOk next prev flags clsid sl st free alloc) :
    x ∈ sl.chunks c ↔ x ∈ free c ∨ x ∈ alloc c := by
  rw [← (h.perm c).mem_iff, List.mem_append]

theorem nodup (h : SlabsOk next prev flags clsid sl st free alloc) (c : ℕ) :
    (free c ++ alloc c).Nodup :=
  (h.perm c).nodup_iff.mpr (h.pages.chunks_nodup h.valid c)

/-- A chunk that is handed out is on no freelist. -/
theorem alloc_not_free (h : SlabsOk next prev flags clsid sl st free alloc) (hx : x ∈ alloc c)
    (c' : ℕ) : x ∉ free c' := fun hx' => by
  have e : c = c' := h.pages.chunks_disjoint h.valid (h.mem_chunks.mpr (.inr hx))
    (h.mem_chunks.mpr (.inl hx'))
  subst e
  exact (List.nodup_append.mp (h.nodup c)).2.2 x hx' x hx rfl

theorem alloc_unique (h : SlabsOk next prev flags clsid sl st free alloc) (hx : x ∈ alloc c)
    (hx' : x ∈ alloc c') : c = c' :=
  h.pages.chunks_disjoint h.valid (h.mem_chunks.mpr (.inr hx)) (h.mem_chunks.mpr (.inr hx'))

theorem alloc_nodup (h : SlabsOk next prev flags clsid sl st free alloc) (c : ℕ) :
    (alloc c).Nodup := (List.nodup_append.mp (h.nodup c)).2.1

theorem isChunk (h : SlabsOk next prev flags clsid sl st free alloc)
    (hx : x ∈ free c ∨ x ∈ alloc c) : ∃ a, x = .chunk a := by
  obtain ⟨p, -, hx⟩ := PagesOk.mem_chunks.mp (h.mem_chunks.mpr hx)
  obtain ⟨i, -, rfl⟩ := mem_pageChunks.mp hx
  exact ⟨_, rfl⟩

theorem inRange (h : SlabsOk next prev flags clsid sl st free alloc)
    (hx : x ∈ free c ∨ x ∈ alloc c) : sl.InRange c := by
  obtain ⟨p, hp, -⟩ := PagesOk.mem_chunks.mp (h.mem_chunks.mpr hx)
  exact h.pages.inRange c p hp

/-- `sl_curr` counts the freelist. -/
theorem slCurr_toNat (h : SlabsOk next prev flags clsid sl st free alloc) (c : ℕ) :
    (sl.slabclass c).slCurr.toNat = (free c).length := by
  have hle : (free c).length ≤ (sl.chunks c).length := by
    rw [← (h.perm c).length_eq, List.length_append]
    exact Nat.le_add_right _ _
  have hlt : (free c).length < UInt32.size :=
    (hle.trans (h.pages.chunks_length_le h.valid c)).trans_lt (by decide)
  rw [h.freelists.count, UInt32.toNat_ofNat_of_lt' hlt]

theorem slCurr_ne_zero_iff (h : SlabsOk next prev flags clsid sl st free alloc) (c : ℕ) :
    (sl.slabclass c).slCurr ≠ 0 ↔ free c ≠ [] := by
  rw [ne_eq, ← UInt32.toNat_inj, h.slCurr_toNat, UInt32.toNat_zero, List.length_eq_zero_iff]

theorem unchanged (h : SlabsOk next prev flags clsid sl st free alloc) (e : sl.Unchanged sl') :
    SlabsOk next prev flags clsid sl' st free alloc where
  freelists := h.freelists.congr (fun _ _ _ => ⟨rfl, rfl, rfl, rfl⟩)
    fun c => ⟨e.slots c, e.slCurr c⟩
  pages := h.pages.samePages e.pages
  valid := h.valid.samePages e.pages
  perm c := by rw [e.pages.chunks]; exact h.perm c

/-- The order of the chunks handed out does not matter. -/
theorem permAlloc (h : SlabsOk next prev flags clsid sl st free alloc) {alloc' : ℕ → List Ptr}
    (hp : ∀ c, (alloc c).Perm (alloc' c)) : SlabsOk next prev flags clsid sl st free alloc' :=
  ⟨h.freelists, h.pages, h.valid, fun c => ((hp c).symm.append_left (free c)).trans (h.perm c)⟩

/-- Chunks that are handed out may be written, queue nodes elsewhere too. -/
theorem congr {next' prev' : Ptr → Option Ptr} {flags' : Ptr → ItemFlags} {clsid' : Ptr → ℕ}
    (h : SlabsOk next prev flags clsid sl st free alloc)
    (hf : ∀ c, ∀ x ∈ free c, next' x = next x ∧ prev' x = prev x ∧ flags' x = flags x ∧
      clsid' x = clsid x) : SlabsOk next' prev' flags' clsid' sl st free alloc :=
  ⟨h.freelists.congr hf fun _ => ⟨rfl, rfl⟩, h.pages, h.valid, h.perm⟩

end

variable {s : Store} {free alloc : ℕ → List Ptr} {it : Ptr} {id : ℕ}

/-! ## Giving back -/

/-- **A chunk is given back.** -/
theorem doSlabsFree (h : s.SlabsOk free alloc) (hit : it ∈ alloc id) (size : ℕ) :
    (s.doSlabsFree it size id).SlabsOk (Function.update free id (it :: free id))
      (Function.update alloc id ((alloc id).erase it)) := by
  have hid : s.slabs.InRange id := h.inRange (.inr hit)
  have hfl := h.freelists.doSlabsFree hid (h.alloc_not_free hit) size
  have hfr := h.freelists.doSlabsFree_frame it hid size
  obtain ⟨hp, cls, hs⟩ := hfr.store
  have hsame : s.slabs.SamePages (s.doSlabsFree it size id).slabs := by
    refine ⟨fun c => ?_, ?_, ?_, ?_, ?_, ?_⟩
    · obtain ⟨_, _, _, e⟩ := hfr.cls c
      rw [e]
      exact ⟨rfl, rfl, rfl, rfl, le_rfl⟩
    all_goals rw [hs]
  have hst : (s.doSlabsFree it size id).settings = s.settings := by rw [hs]
  refine ⟨hfl, ?_, ?_, fun c => ?_⟩
  · rw [hst]; exact h.pages.samePages hsame
  · rw [hst]; exact h.valid.samePages hsame
  · rw [hsame.chunks]
    by_cases e : c = id
    · subst e
      rw [Function.update_self, Function.update_self]
      refine List.Perm.trans ?_ (h.perm c)
      exact List.perm_middle.symm.trans ((List.perm_cons_erase hit).symm.append_left (free c))
    · rw [Function.update_of_ne e, Function.update_of_ne e]; exact h.perm c

/-! ## A new page -/

theorem growSlabList_cases (s : Store) (id : ℕ)
    (hle : (s.slabs.slabclass id).slabs ≤ (s.slabs.slabclass id).listSize) :
    (∃ e, s.growSlabList id = (false, { s with env := e })) ∨
      ∃ sl e, s.growSlabList id = (true, { s with slabs := sl, env := e }) ∧
        s.slabs.Unchanged sl ∧ (sl.slabclass id).slabs < (sl.slabclass id).listSize := by
  -- the class with a longer list of pages differs in nothing else
  have hun : ∀ n, (s.slabs.slabclass id).listSize ≤ n → s.slabs.Unchanged { s.slabs with
      slabclass := Function.update s.slabs.slabclass id
        { s.slabs.slabclass id with listSize := n } } := by
    intro n hn
    refine ⟨⟨fun c => ?_, rfl, rfl, rfl, rfl, le_rfl⟩, fun c => ?_, fun c => ?_, fun c => ?_⟩ <;>
      by_cases e : c = id
    · subst e
      simp only [Function.update_self]
      exact ⟨rfl, rfl, rfl, rfl, hn⟩
    · simp only [Function.update_of_ne e]
      exact ⟨rfl, rfl, rfl, rfl, le_rfl⟩
    all_goals first | (subst e; simp) | simp [e]
  dsimp only [Store.growSlabList]
  split_ifs with h1 h2 h3
  · refine .inr ⟨_, _, rfl, hun _ (by omega), ?_⟩
    simp only [Function.update_self]
    omega
  · refine .inr ⟨_, _, rfl, hun _ (by omega), ?_⟩
    simp only [Function.update_self]
    omega
  · exact .inl ⟨_, rfl⟩
  · exact .inr ⟨s.slabs, s.env, rfl, .refl _, lt_of_le_of_ne hle h1⟩

/-- What a successful `MemoryAllocator` call gives: a block away from all pages. -/
theorem memoryAllocator_cases (h : PagesOk s.slabs s.settings) (hv : s.slabs.Valid s.settings)
    (len : ℕ) :
    (∃ e, s.memoryAllocator len = (none, { s with env := e })) ∨
      ∃ ptr sl e, s.memoryAllocator len = (some ptr, { s with slabs := sl, env := e }) ∧
        s.slabs.Unchanged sl ∧ sl.slabclass = s.slabs.slabclass ∧
        (sl.memBase ≠ none → ptr + len ≤ sl.memCurrent) ∧
        ∀ c, ∀ p ∈ (s.slabs.slabclass c).slabList,
          ptr + len ≤ p ∨ p + (s.slabs.slabclass c).pageLen s.settings ≤ ptr := by
  unfold Store.memoryAllocator
  cases hb : s.slabs.memBase with
  | none =>
    cases hm : s.env.mallocs 0 with
    | none => exact .inl ⟨_, rfl⟩
    | some ptr =>
      dsimp only
      split_ifs with hf
      · refine .inr ⟨ptr, s.slabs, _, rfl, .refl _, rfl, by simp [hb], ?_⟩
        intro c p hp
        have hc := h.inRange c p hp
        exact hf c (hc.2.trans_lt hv.powerLargest_lt) p hp
      · exact .inl ⟨_, rfl⟩
  | some b =>
    by_cases ha : s.slabs.memAvail < len
    · simp only [if_pos ha]
      exact .inl ⟨_, rfl⟩
    · simp only [if_neg ha]
      have hal : len ≤ alignUp len := by unfold alignUp; split_ifs <;> omega
      refine .inr ⟨_, _, s.env, rfl, ?_, rfl, fun _ => ?_, ?_⟩
      · exact ⟨⟨fun c => ⟨rfl, rfl, rfl, rfl, le_rfl⟩, rfl, rfl, rfl, rfl,
          Nat.le_add_right _ _⟩, fun _ => rfl, fun _ => rfl, fun _ => rfl⟩
      · exact Nat.add_le_add_left hal _
      · exact fun c p hp => .inr (h.current (by rw [hb]; simp) c p hp)

/-- What `DoSlabsNewSlab` leaves alone when it adds the chunks `cs` to class `id`. -/
structure PageFrame (s s' : Store) (cs : List Ptr) (id : ℕ) (free : ℕ → List Ptr) : Prop where
  store : ∃ h sl e, s' = { s with heap := h, slabs := sl, env := e }
  same : ∀ x ∉ cs, s.heap.SameAt s'.heap x
  next : ∀ x ∉ cs, s'.heap.next x = s.heap.next x
  prev : ∀ x ∉ cs, x ∉ free id → s'.heap.prev x = s.heap.prev x
  unlinked : ∀ x ∈ cs, (s'.heap.itFlags x).linked = false
  powerLargest : s'.slabs.powerLargest = s.slabs.powerLargest
  sizes : ∀ c, (s'.slabs.slabclass c).size = (s.slabs.slabclass c).size ∧
    (s'.slabs.slabclass c).perslab = (s.slabs.slabclass c).perslab
  requested : ∀ c, (s'.slabs.slabclass c).requested = (s.slabs.slabclass c).requested
  chunks : ∀ c, ∀ x ∈ s.slabs.chunks c, x ∈ s'.slabs.chunks c

theorem pageChunks_fresh (h : s.SlabsOk free alloc) (hid : s.slabs.InRange id) {ptr : ℕ}
    (hfresh : ∀ c, ∀ p ∈ (s.slabs.slabclass c).slabList,
      ptr + (s.slabs.slabclass id).pageLen s.settings ≤ p ∨
        p + (s.slabs.slabclass c).pageLen s.settings ≤ ptr) {x : Ptr}
    (hx : x ∈ pageChunks ptr (s.slabs.slabclass id).size (s.slabs.slabclass id).perslab) (c : ℕ) :
    x ∉ free c ∧ x ∉ alloc c := by
  rw [← not_or, ← h.mem_chunks, PagesOk.mem_chunks]
  rintro ⟨p, hp, hx'⟩
  have hc := h.pages.inRange c p hp
  obtain ⟨a, rfl, h1, h2⟩ :=
    mem_pageChunks_bounds (h.valid.size_pos hid) (h.valid.mul_le_pageLen hid) hx
  obtain ⟨a', e, h3, h4⟩ :=
    mem_pageChunks_bounds (h.valid.size_pos hc) (h.valid.mul_le_pageLen hc) hx'
  cases e
  have := hfresh c p hp
  omega

/-- The page at `ptr` is cut up and joins class `id`. -/
theorem carvePage (h : s.SlabsOk free alloc) (hid : s.slabs.InRange id) {ptr : ℕ}
    (hfresh : ∀ c, ∀ p ∈ (s.slabs.slabclass c).slabList,
      ptr + (s.slabs.slabclass id).pageLen s.settings ≤ p ∨
        p + (s.slabs.slabclass c).pageLen s.settings ≤ ptr)
    (hcur : s.slabs.memBase ≠ none →
      ptr + (s.slabs.slabclass id).pageLen s.settings ≤ s.slabs.memCurrent)
    (hroom : (s.slabs.slabclass id).slabs < (s.slabs.slabclass id).listSize)
    (hlim : s.slabs.memLimit < s.slabs.memMalloced + (s.slabs.slabclass id).pageLen s.settings →
      (s.slabs.slabclass id).slabs = 0)
    {cs : List Ptr} {u : Store}
    (hcs : cs = pageChunks ptr (s.slabs.slabclass id).size (s.slabs.slabclass id).perslab)
    (hu : u = s.carvePage ptr id ((s.slabs.slabclass id).pageLen s.settings)) :
    u.SlabsOk (Function.update free id (cs.reverse ++ free id)) alloc ∧ PageFrame s u cs id free := by
  have hnew : ∀ x ∈ cs, ∀ c, x ∉ free c ∧ x ∉ alloc c := fun x hx c =>
    h.pageChunks_fresh hid hfresh (hcs ▸ hx) c
  have hnotcs : ∀ c, ∀ x ∈ free c, x ∉ cs := fun c x hx hm => (hnew x hm c).1 hx
  have hclear : Store.FreelistsOk { s with heap := s.heap.clear cs } free :=
    h.freelists.congr (fun c x hx => ⟨if_neg (hnotcs c x hx), if_neg (hnotcs c x hx),
      if_neg (hnotcs c x hx), if_neg (hnotcs c x hx)⟩) fun _ => ⟨rfl, rfl⟩
  obtain ⟨hfl, hfr⟩ := hclear.freeAll hid (hcs ▸ pageChunks_nodup (h.valid.size_pos hid))
    fun x hx c => (hnew x hx c).1
  obtain ⟨t, ht⟩ : ∃ t, t = cs.foldl (fun s it => s.doSlabsFree it 0 id)
      { s with heap := s.heap.clear cs } := ⟨_, rfl⟩
  have hu : u = { t with
      slabs := t.slabs.addPage id ptr ((s.slabs.slabclass id).pageLen s.settings) } := by
    rw [hu, ht, hcs]; rfl
  rw [← ht] at hfl hfr
  obtain ⟨hp, cls, hs⟩ := hfr.store
  have hsame : s.slabs.SamePages t.slabs := by
    refine ⟨fun c => ?_, ?_, ?_, ?_, ?_, ?_⟩
    · obtain ⟨_, _, _, e⟩ := hfr.cls c
      rw [e]
      exact ⟨rfl, rfl, rfl, rfl, le_rfl⟩
    all_goals rw [hs]
  have hst : t.settings = s.settings := by rw [hs]
  have hlen : (s.slabs.slabclass id).pageLen s.settings = (t.slabs.slabclass id).pageLen t.settings := by
    rw [hst, (hsame.cls id).pageLen]
  have hrange : t.slabs.InRange id := ⟨hid.1, hsame.powerLargest ▸ hid.2⟩
  have hpages : PagesOk t.slabs t.settings := hst ▸ h.pages.samePages hsame
  have hvalid : t.slabs.Valid t.settings := hst ▸ h.valid.samePages hsame
  have hpages' : PagesOk u.slabs u.settings := by
    rw [hu, hlen]
    refine hpages.addPage hrange hvalid (fun c p hp => ?_) (fun hb => ?_) ?_ fun hl => ?_
    · rw [(hsame.cls c).slabList] at hp
      rw [← hlen, hst, (hsame.cls c).pageLen]
      exact hfresh c p hp
    · rw [← hlen]
      exact (hcur (hsame.memBase ▸ hb)).trans hsame.memCurrent
    · rw [(hsame.cls id).slabs]
      exact hroom.trans_le (hsame.cls id).listSize
    · rw [← hlen, hsame.memLimit, hsame.memMalloced] at hl
      rw [(hsame.cls id).slabs]
      exact hlim hl
  refine ⟨⟨?_, hpages', ?_, fun c => ?_⟩, ?_⟩
  · rw [hu]
    refine hfl.congr (fun _ _ _ => ⟨rfl, rfl, rfl, rfl⟩) fun c => ?_
    by_cases e : c = id
    · subst e; simp [Slabs.addPage]
    · simp [Slabs.addPage, e]
  · rw [hu]
    exact hvalid.addPage _ _ _
  · rw [hu]
    simp only
    rw [addPage_chunks, hsame.chunks, (hsame.cls id).size, (hsame.cls id).perslab, ← hcs]
    by_cases e : c = id
    · subst e
      rw [Function.update_self, if_pos rfl, List.append_assoc]
      exact ((h.perm c).append_left cs.reverse).trans
        (((List.reverse_perm cs).append_right _).trans List.perm_append_comm)
    · rw [Function.update_of_ne e, if_neg e, List.append_nil]
      exact h.perm c
  · rw [hu]
    refine ⟨⟨hp, _, s.env, by rw [hs]⟩, fun x hx => ?_, fun x hx => ?_, fun x hx hf => ?_,
      fun x hx => ?_, hsame.powerLargest, fun c => ?_, fun c => ?_, fun c x hx => ?_⟩
    · exact (s.heap.clear_sameAt hx).trans (hfr.same x hx)
    · exact (hfr.next x hx).trans (if_neg hx)
    · exact (hfr.prev x hx hf).trans (if_neg hx)
    · rw [hfr.linked]
      simp [Heap.clear, hx, ItemFlags.none]
    · rw [addPage_size, addPage_perslab, (hsame.cls c).size, (hsame.cls c).perslab]
      exact ⟨rfl, rfl⟩
    · have hr := FreelistsOk.freeAll_requested cs { s with heap := s.heap.clear cs } hid c
      rw [← ht] at hr
      rw [addPage_requested, hr]
    · rw [addPage_chunks, hsame.chunks]
      exact List.mem_append_left _ hx

/-- **What `DoSlabsNewSlab` does**: it fails and changes no chunk, or adds a page of fresh chunks. -/
theorem doSlabsNewSlab (h : s.SlabsOk free alloc) (hid : s.slabs.InRange id) :
    (∃ sl e, s.doSlabsNewSlab id = (false, { s with slabs := sl, env := e }) ∧
      s.slabs.Unchanged sl) ∨
    ∃ u cs, s.doSlabsNewSlab id = (true, u) ∧ cs ≠ [] ∧
      (∀ x ∈ cs, ∀ c, x ∉ free c ∧ x ∉ alloc c) ∧
      u.SlabsOk (Function.update free id (cs.reverse ++ free id)) alloc ∧
      PageFrame s u cs id free := by
  unfold Store.doSlabsNewSlab
  by_cases hlim : s.slabs.memLimit ≠ 0 ∧ s.slabs.memLimit < s.slabs.memMalloced +
      (s.slabs.slabclass id).pageLen s.settings ∧ 0 < (s.slabs.slabclass id).slabs
  · rw [if_pos hlim]
    refine .inl ⟨_, s.env, rfl, ⟨fun c => ?_, rfl, rfl, rfl, rfl, le_rfl⟩, fun _ => rfl,
      fun _ => rfl, fun _ => rfl⟩
    exact ⟨rfl, rfl, rfl, rfl, le_rfl⟩
  rw [if_neg hlim]
  obtain ⟨e, hg⟩ | ⟨sl₁, e₁, hg, hun₁, hroom⟩ := growSlabList_cases s id (h.pages.slabs_le id)
  · rw [hg]
    exact .inl ⟨s.slabs, e, rfl, .refl _⟩
  rw [hg]
  have h1 : Store.SlabsOk { s with slabs := sl₁, env := e₁ } free alloc := h.unchanged hun₁
  obtain ⟨e, hm⟩ | ⟨ptr, sl₂, e₂, hm, hun₂, hcls, hcur, hfresh⟩ := memoryAllocator_cases h1.pages
    h1.valid ((s.slabs.slabclass id).pageLen s.settings)
  · simp only [hm]
    exact .inl ⟨_, e, rfl, hun₁⟩
  simp only [hm]
  have h2 : Store.SlabsOk { s with slabs := sl₂, env := e₂ } free alloc := h1.unchanged hun₂
  have hcl : sl₂.slabclass = sl₁.slabclass := hcls
  have hlen : (sl₂.slabclass id).pageLen s.settings = (s.slabs.slabclass id).pageLen s.settings := by
    rw [hcl]; exact (hun₁.pages.cls id).pageLen _
  have hid₂ : sl₂.InRange id :=
    ⟨hid.1, hid.2.trans (hun₂.pages.powerLargest.trans hun₁.pages.powerLargest).ge⟩
  have hfresh₂ : ∀ c, ∀ p ∈ (sl₂.slabclass c).slabList,
      ptr + (sl₂.slabclass id).pageLen s.settings ≤ p ∨
        p + (sl₂.slabclass c).pageLen s.settings ≤ ptr := by
    intro c p hp
    rw [hcl] at hp
    rw [hlen, hcl]
    exact hfresh c p hp
  obtain ⟨hok, hfr⟩ := h2.carvePage hid₂ hfresh₂ (fun hb => by rw [hlen]; exact hcur hb)
    (by rw [hcl]; exact hroom)
    (fun hl => by
      simp only at hl ⊢
      rw [hlen, hun₂.pages.memLimit, hun₂.pages.memMalloced] at hl
      rw [hcl, (hun₁.pages.cls id).slabs]
      by_contra hne
      refine hlim ⟨h.valid.memLimit_pos.ne', ?_, Nat.pos_of_ne_zero hne⟩
      rw [← hun₁.pages.memLimit, ← hun₁.pages.memMalloced]
      exact hl)
    rfl rfl
  rw [← hlen]
  refine .inr ⟨_, _, rfl, ?_, fun x hx c => h2.pageChunks_fresh hid₂ hfresh₂ hx c, hok, ?_⟩
  · have := h2.valid.perslab_pos id hid₂
    simp only [pageChunks, ne_eq, List.map_eq_nil_iff, List.range_eq_nil]
    exact Nat.pos_iff_ne_zero.mp this
  · obtain ⟨hp, sl, e, hs⟩ := hfr.store
    refine ⟨⟨hp, sl, e, by rw [hs]⟩, hfr.same, hfr.next, hfr.prev, hfr.unlinked,
      hfr.powerLargest.trans (hun₂.pages.powerLargest.trans hun₁.pages.powerLargest), fun c => ?_,
      fun c => (hfr.requested c).trans ((hun₂.requested c).trans (hun₁.requested c)),
      fun c x hx => hfr.chunks c x ?_⟩
    · rw [(hfr.sizes c).1, (hfr.sizes c).2]
      simp only [hcl]
      exact ⟨(hun₁.pages.cls c).size, (hun₁.pages.cls c).perslab⟩
    · show x ∈ sl₂.chunks c
      rw [hun₂.pages.chunks]
      show x ∈ sl₁.chunks c
      rw [hun₁.pages.chunks]
      exact hx

/-! ## Handing out -/

theorem popSlot_samePages (s : Store) (it : Ptr) (size id : ℕ) :
    s.slabs.SamePages (s.popSlot it size id).slabs := by
  refine ⟨fun c => ?_, rfl, rfl, rfl, rfl, le_rfl⟩
  by_cases e : c = id
  · subst e
    simp only [Store.popSlot, Store.setClass, Function.update_self]
    exact ⟨rfl, rfl, rfl, rfl, le_rfl⟩
  · simp only [Store.popSlot, Store.setClass, Function.update_of_ne e]
    exact ⟨rfl, rfl, rfl, rfl, le_rfl⟩

theorem popSlot (h : s.SlabsOk free alloc) {l : List Ptr} (hl : free id = it :: l) (size : ℕ) :
    (s.popSlot it size id).SlabsOk (Function.update free id l)
      (Function.update alloc id (it :: alloc id)) := by
  have hsame := popSlot_samePages s it size id
  refine ⟨h.freelists.popSlot hl size, h.pages.samePages hsame, h.valid.samePages hsame,
    fun c => ?_⟩
  rw [hsame.chunks]
  by_cases e : c = id
  · subst e
    rw [Function.update_self, Function.update_self]
    refine List.Perm.trans ?_ (h.perm c)
    rw [hl]
    exact List.perm_middle
  · rw [Function.update_of_ne e, Function.update_of_ne e]; exact h.perm c

theorem removeSlot_samePages (s : Store) (it : Ptr) (id : ℕ) :
    s.slabs.SamePages (s.removeSlot it id).slabs := by
  refine ⟨fun c => ?_, rfl, rfl, rfl, rfl, le_rfl⟩
  by_cases e : c = id
  · subst e
    simp only [Store.removeSlot, Store.setClass, Function.update_self]
    exact ⟨rfl, rfl, rfl, rfl, le_rfl⟩
  · simp only [Store.removeSlot, Store.setClass, Function.update_of_ne e]
    exact ⟨rfl, rfl, rfl, rfl, le_rfl⟩

/-- **A free chunk is taken** off its freelist. -/
theorem removeSlot (h : s.SlabsOk free alloc) (hit : it ∈ free id) :
    (s.removeSlot it id).SlabsOk (Function.update free id ((free id).erase it))
      (Function.update alloc id (it :: alloc id)) := by
  have hsame := removeSlot_samePages s it id
  refine ⟨h.freelists.removeSlot hit, h.pages.samePages hsame, h.valid.samePages hsame,
    fun c => ?_⟩
  rw [hsame.chunks]
  by_cases e : c = id
  · subst e
    rw [Function.update_self, Function.update_self]
    refine List.Perm.trans ?_ (h.perm c)
    exact List.perm_middle.trans ((List.perm_cons_erase hit).symm.append_right (alloc c))
  · rw [Function.update_of_ne e, Function.update_of_ne e]; exact h.perm c

/-- What `DoSlabsAlloc` leaves alone when it hands out `it`: every chunk handed out before, and every
node that is no chunk. -/
structure AllocFrame (s s' : Store) (it : Ptr) (size id : ℕ) (free alloc free' : ℕ → List Ptr) :
    Prop where
  store : ∃ h sl e, s' = { s with
    heap := h, slabs := sl, env := e, trace := .alloc it :: s.trace }
  same : ∀ x, (x.isChunk = false ∨ ∃ c, x ∈ alloc c) → s.heap.SameAt s'.heap x ∧
    s'.heap.next x = s.heap.next x ∧ s'.heap.prev x = s.heap.prev x
  away : ∀ x, x ≠ it → (∀ c, x ∉ free' c) → s.heap.SameAt s'.heap x
  refcount : s'.heap.refcount it = 1
  slabbed : (s'.heap.itFlags it).slabbed = false
  linked : ∀ x, (x = it ∨ ∃ c, x ∈ free' c) → (s'.heap.itFlags x).linked = true →
    ∃ c, x ∈ free c ∧ (s.heap.itFlags x).linked = true
  powerLargest : s'.slabs.powerLargest = s.slabs.powerLargest
  sizes : ∀ c, (s'.slabs.slabclass c).size = (s.slabs.slabclass c).size ∧
    (s'.slabs.slabclass c).perslab = (s.slabs.slabclass c).perslab
  requested : ∀ c, (s'.slabs.slabclass c).requested =
    (s.slabs.slabclass c).requested + if c = id then UInt64.ofNat size else 0
  chunks : ∀ c, ∀ x ∈ s.slabs.chunks c, x ∈ s'.slabs.chunks c

theorem popSlot_frame (h : s.SlabsOk free alloc) {l : List Ptr} (hl : free id = it :: l)
    (size : ℕ) : AllocFrame s (s.popSlot it size id) it size id free alloc
      (Function.update free id l) := by
  have hit : it ∈ free id := by rw [hl]; exact List.mem_cons_self
  have hne : ∀ x, (x.isChunk = false ∨ ∃ c, x ∈ alloc c) → ∀ c, x ∉ free c := by
    rintro x (hx | ⟨c, hx⟩) c' hf
    · obtain ⟨a, rfl⟩ := h.isChunk (.inl hf)
      cases hx
    · exact h.alloc_not_free hx c' hf
  have hflags : ∀ x, ((s.popSlot it size id).heap.itFlags x).linked = (s.heap.itFlags x).linked := by
    intro x
    by_cases e : x = it
    · subst e
      simp [Store.popSlot, Store.setFlags, Store.setRefcount, Store.setClass]
    · simp [Store.popSlot, Store.setFlags, Store.setRefcount, Store.setClass, e]
  have hsame : ∀ x, x ≠ it → s.heap.SameAt (s.popSlot it size id).heap x := fun x hxi =>
    ⟨rfl, rfl, rfl, Function.update_of_ne hxi _ _, Function.update_of_ne hxi _ _, rfl, rfl, rfl,
      rfl, rfl⟩
  refine ⟨⟨_, _, _, rfl⟩, fun x hx => ⟨?_, rfl, ?_⟩, fun x hxi _ => hsame x hxi,
    Function.update_self _ _ _, ?_, fun x hx hlk => ?_, rfl, fun c => ?_, fun c => ?_,
    fun c x hx => ?_⟩
  · exact hsame x fun e => hne x hx id (e ▸ hit)
  · refine setAt_of_ne fun e => hne x hx id ?_
    have hseg := h.freelists.seg id
    rw [hl] at hseg ⊢
    have hn : s.heap.next it = l.head? := by rw [hseg.2.1, Option.or_none]
    exact List.mem_cons_of_mem _ (List.mem_of_mem_head? (hn.symm.trans e))
  · simp [Store.popSlot, Store.setFlags, Store.setRefcount, Store.setClass]
  · rw [hflags] at hlk
    rcases hx with rfl | ⟨c, hx⟩
    · exact ⟨id, hit, hlk⟩
    · by_cases e : c = id
      · subst e
        rw [Function.update_self] at hx
        exact ⟨c, by rw [hl]; exact List.mem_cons_of_mem _ hx, hlk⟩
      · rw [Function.update_of_ne e] at hx
        exact ⟨c, hx, hlk⟩
  · by_cases e : c = id
    · subst e
      constructor <;> simp only [Store.popSlot, Store.setClass, Function.update_self]
    · constructor <;> simp only [Store.popSlot, Store.setClass, Function.update_of_ne e] <;> rfl
  · by_cases e : c = id
    · subst e
      simp only [Store.popSlot, Store.setClass, Function.update_self, if_true]
    · rw [if_neg e, add_zero]
      simp only [Store.popSlot, Store.setClass, Function.update_of_ne e]
      rfl
  · rw [(popSlot_samePages s it size id).chunks]
    exact hx

/-- **What `DoSlabsAlloc` does**: it fails and changes no chunk, or hands out a chunk that was not
handed out. -/
theorem doSlabsAlloc (h : s.SlabsOk free alloc) (size id : ℕ) (tc : UInt32) :
    (∃ sl e tc', s.doSlabsAlloc size id tc = (none, tc', { s with slabs := sl, env := e }) ∧
      s.slabs.Unchanged sl) ∨
    ∃ it tc' s' free', s.doSlabsAlloc size id tc = (some it, tc', s') ∧ s.slabs.InRange id ∧
      (∀ c, it ∉ alloc c) ∧ s'.SlabsOk free' (Function.update alloc id (it :: alloc id)) ∧
      AllocFrame s s' it size id free alloc free' := by
  unfold Store.doSlabsAlloc
  by_cases hid : s.slabs.InRange id
  swap
  · rw [if_neg hid]
    exact .inl ⟨s.slabs, s.env, tc, rfl, .refl _⟩
  rw [if_pos hid]
  by_cases hcur : (s.slabs.slabclass id).slCurr ≠ 0
  · -- a chunk is on the freelist
    obtain ⟨it, l, hl⟩ := List.exists_cons_of_ne_nil ((h.slCurr_ne_zero_iff id).mp hcur)
    have hslots : (s.slabs.slabclass id).slots = some it := by rw [h.freelists.slots, hl]; rfl
    refine .inr ⟨it, UInt32.ofNat ((s.slabs.slabclass id).slabs * (s.slabs.slabclass id).perslab),
      _, _, ?_, hid, fun c hc => ?_, h.popSlot hl size, h.popSlot_frame hl size⟩
    · simp only [if_pos hcur, hslots]
    · exact h.alloc_not_free hc id (by rw [hl]; exact List.mem_cons_self)
  simp only [if_neg hcur]
  have hnil : free id = [] := by
    by_contra hne
    exact hcur ((h.slCurr_ne_zero_iff id).mpr hne)
  obtain ⟨sl, e, hns, hun⟩ | ⟨u, cs, hns, hcs, hnew, hok, hfr⟩ := h.doSlabsNewSlab hid
  · simp only [hns]
    exact .inl ⟨sl, e, _, rfl, hun⟩
  · -- the first chunk of the new page
    simp only [hns]
    obtain ⟨it, l, hl⟩ := List.exists_cons_of_ne_nil
      (List.reverse_ne_nil_iff.mpr hcs)
    have hfree : Function.update free id (cs.reverse ++ free id) id = it :: l := by
      rw [Function.update_self, hnil, List.append_nil, hl]
    have hitcs : it ∈ cs := List.mem_reverse.mp (by rw [hl]; exact List.mem_cons_self)
    have hslots : (u.slabs.slabclass id).slots = some it := by
      rw [hok.freelists.slots, hfree]; rfl
    have hcur' : (u.slabs.slabclass id).slCurr ≠ 0 := by
      rw [hok.slCurr_ne_zero_iff, hfree]; simp
    have hpf := hok.popSlot_frame hfree size
    refine .inr ⟨it, UInt32.ofNat ((s.slabs.slabclass id).slabs * (s.slabs.slabclass id).perslab),
      _, _, ?_, hid, fun c => (hnew it hitcs c).2, hok.popSlot hfree size, ?_⟩
    · simp only [hslots, if_pos hcur']
    · obtain ⟨hp, sl, e, hs⟩ := hfr.store
      obtain ⟨hp', sl', e', hs'⟩ := hpf.store
      have hnot : ∀ x, (x.isChunk = false ∨ ∃ c, x ∈ alloc c) → x ∉ cs ∧ x ∉ free id := by
        refine fun x hx => ⟨fun hm => ?_, by rw [hnil]; simp⟩
        rcases hx with hx | ⟨c, hx⟩
        · obtain ⟨a, rfl⟩ := hok.isChunk (x := x) (c := id)
            (.inl (by rw [Function.update_self]; simp [hm]))
          cases hx
        · exact (hnew x hm c).2 hx
      refine ⟨⟨hp', sl', e', by rw [hs', hs]⟩, fun x hx => ⟨?_, ?_, ?_⟩, fun x hxi hx => ?_,
        hpf.refcount, hpf.slabbed, fun x hx hlk => ?_, hpf.powerLargest.trans hfr.powerLargest,
        fun c => ?_, fun c => by rw [hpf.requested, hfr.requested],
        fun c x hx => hpf.chunks c x (hfr.chunks c x hx)⟩
      · exact (hfr.same x (hnot x hx).1).trans (hpf.same x hx).1
      · exact (hpf.same x hx).2.1.trans (hfr.next x (hnot x hx).1)
      · exact (hpf.same x hx).2.2.trans (hfr.prev x (hnot x hx).1 (hnot x hx).2)
      · refine (hfr.same x fun hm => ?_).trans (hpf.away x hxi hx)
        have hm : x ∈ it :: l := hl ▸ List.mem_reverse.mpr hm
        refine hx id ?_
        rw [Function.update_self]
        exact (List.mem_cons.mp hm).resolve_left hxi
      · obtain ⟨c, hc, hlk⟩ := hpf.linked x hx hlk
        by_cases hm : x ∈ cs
        · rw [hfr.unlinked x hm] at hlk; cases hlk
        · rw [(hfr.same x hm).itFlags] at hlk
          by_cases e : c = id
          · subst e
            rw [Function.update_self, hnil, List.append_nil, List.mem_reverse] at hc
            exact absurd hc hm
          · rw [Function.update_of_ne e] at hc
            exact ⟨c, hc, hlk⟩
      · rw [(hpf.sizes c).1, (hpf.sizes c).2]
        exact hfr.sizes c

end SlabsOk

end Mdb
