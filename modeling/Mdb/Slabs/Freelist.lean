import Mdb.Slabs.Model

/-!
# Freelists

* `Heap.SameAt h h' x`: item `x` is the same in both heaps, its queue links apart;
* `FreelistsOk`: the freelists represent the lists `free`, all chunks on them slabbed;
* `FreelistsOk.push`, `FreelistsOk.pop`: `DoSlabsFree` and the pop of `DoSlabsAlloc`;
* `FreelistsOk.remove`: a chunk leaves the middle of its freelist;
* `FreelistsOk.freeAll`: a whole page.
-/

namespace Mdb

open Dll

/-- Item `x` has the same fields in both heaps, `next` and `prev` apart. -/
structure Heap.SameAt (h h' : Heap) (x : Ptr) : Prop where
  time : h'.time x = h.time x
  exptime : h'.exptime x = h.exptime x
  nbytes : h'.nbytes x = h.nbytes x
  refcount : h'.refcount x = h.refcount x
  itFlags : h'.itFlags x = h.itFlags x
  slabsClsid : h'.slabsClsid x = h.slabsClsid x
  key : h'.key x = h.key x
  cas : h'.cas x = h.cas x
  suffix : h'.suffix x = h.suffix x
  data : h'.data x = h.data x

theorem Heap.SameAt.refl (h : Heap) (x : Ptr) : h.SameAt h x :=
  ⟨rfl, rfl, rfl, rfl, rfl, rfl, rfl, rfl, rfl, rfl⟩

theorem Heap.SameAt.trans {h₁ h₂ h₃ : Heap} {x : Ptr} (h12 : h₁.SameAt h₂ x)
    (h23 : h₂.SameAt h₃ x) : h₁.SameAt h₃ x where
  time := h23.time.trans h12.time
  exptime := h23.exptime.trans h12.exptime
  nbytes := h23.nbytes.trans h12.nbytes
  refcount := h23.refcount.trans h12.refcount
  itFlags := h23.itFlags.trans h12.itFlags
  slabsClsid := h23.slabsClsid.trans h12.slabsClsid
  key := h23.key.trans h12.key
  cas := h23.cas.trans h12.cas
  suffix := h23.suffix.trans h12.suffix
  data := h23.data.trans h12.data

theorem Heap.clear_sameAt (h : Heap) {cs : List Ptr} {x : Ptr} (hx : x ∉ cs) :
    h.SameAt (h.clear cs) x :=
  ⟨if_neg hx, if_neg hx, if_neg hx, if_neg hx, if_neg hx, if_neg hx, if_neg hx, if_neg hx,
    if_neg hx, if_neg hx⟩

/-- **The freelists represent the lists `free`**; every chunk on one is slabbed and has class 0. -/
structure FreelistsOk (next prev : Ptr → Option Ptr) (flags : Ptr → ItemFlags) (clsid : Ptr → ℕ)
    (cls : ℕ → SlabClass) (free : ℕ → List Ptr) : Prop where
  seg : ∀ c, Seg next prev none (free c) none
  nodup : ∀ c, (free c).Nodup
  disjoint : ∀ c c' x, x ∈ free c → x ∈ free c' → c = c'
  slots : ∀ c, (cls c).slots = (free c).head?
  count : ∀ c, (cls c).slCurr = UInt32.ofNat (free c).length
  slabbed : ∀ c, ∀ x ∈ free c, (flags x).slabbed = true
  clsid_zero : ∀ c, ∀ x ∈ free c, clsid x = 0

namespace FreelistsOk

variable {next prev : Ptr → Option Ptr} {flags : Ptr → ItemFlags} {clsid : Ptr → ℕ}
  {cls : ℕ → SlabClass} {free : ℕ → List Ptr} {it : Ptr} {id : ℕ}

/-- Freelists read only their own chunks and two fields of the class. -/
theorem congr {next' prev' : Ptr → Option Ptr} {flags' : Ptr → ItemFlags} {clsid' : Ptr → ℕ}
    {cls' : ℕ → SlabClass} (h : FreelistsOk next prev flags clsid cls free)
    (hf : ∀ c, ∀ x ∈ free c, next' x = next x ∧ prev' x = prev x ∧ flags' x = flags x ∧
      clsid' x = clsid x)
    (hc : ∀ c, (cls' c).slots = (cls c).slots ∧ (cls' c).slCurr = (cls c).slCurr) :
    FreelistsOk next' prev' flags' clsid' cls' free where
  seg c := (h.seg c).congr (fun x hx => (hf c x hx).1) (fun x hx => (hf c x hx).2.1)
  nodup := h.nodup
  disjoint := h.disjoint
  slots c := by rw [(hc c).1, h.slots]
  count c := by rw [(hc c).2, h.count]
  slabbed c x hx := by rw [(hf c x hx).2.2.1]; exact h.slabbed c x hx
  clsid_zero c x hx := by rw [(hf c x hx).2.2.2]; exact h.clsid_zero c x hx

theorem empty (h : ∀ c, (cls c).slots = none ∧ (cls c).slCurr = 0) :
    FreelistsOk next prev flags clsid cls fun _ => [] where
  seg _ := trivial
  nodup _ := List.nodup_nil
  disjoint c c' x hx := by cases hx
  slots c := (h c).1
  count c := (h c).2
  slabbed c x hx := by cases hx
  clsid_zero c x hx := by cases hx

theorem mem_update_cons (free : ℕ → List Ptr) (id c : ℕ) (x y : Ptr) :
    x ∈ Function.update free id (y :: free id) c ↔ x ∈ free c ∨ c = id ∧ x = y := by
  by_cases e : c = id
  · subst e; simp [or_comm]
  · simp [e]

/-- **Pushing** a chunk that is on no freelist. -/
theorem push (h : FreelistsOk next prev flags clsid cls free) (id : ℕ) (hnew : ∀ c, it ∉ free c)
    (size : ℕ) (f : ItemFlags) (hf : f.slabbed = true) :
    FreelistsOk (Function.update next it (cls id).slots)
      (setAt (Function.update prev it none) (cls id).slots (some it)) (Function.update flags it f)
      (Function.update clsid it 0)
      (Function.update cls id { cls id with
        slots := some it, slCurr := (cls id).slCurr + 1
        requested := (cls id).requested - UInt64.ofNat size })
      (Function.update free id (it :: free id)) where
  seg c := by
    by_cases e : c = id
    · subst e
      rw [Function.update_self, h.slots]
      exact (h.seg c).pushFront (h.nodup c) (hnew c)
    · rw [Function.update_of_ne e]
      refine (h.seg c).congr (fun x hx => ?_) (fun x hx => ?_)
      · exact Function.update_of_ne (ne_of_mem_of_not_mem hx (hnew c)) _ _
      · rw [setAt_of_ne, Function.update_of_ne (ne_of_mem_of_not_mem hx (hnew c))]
        rw [h.slots]
        exact fun e' => e (h.disjoint _ _ x hx (List.mem_of_mem_head? e'))
  nodup c := by
    by_cases e : c = id
    · subst e
      rw [Function.update_self]
      exact List.nodup_cons.mpr ⟨hnew c, h.nodup c⟩
    · rw [Function.update_of_ne e]; exact h.nodup c
  disjoint c c' x hx hx' := by
    rw [mem_update_cons] at hx hx'
    rcases hx with hx | ⟨rfl, rfl⟩ <;> rcases hx' with hx' | ⟨hc, hx'⟩
    · exact h.disjoint c c' x hx hx'
    · exact absurd hx (hx' ▸ hnew c)
    · exact absurd hx' (hnew c')
    · exact hc.symm
  slots c := by
    by_cases e : c = id
    · subst e; simp
    · simp [e, h.slots]
  count c := by
    by_cases e : c = id
    · subst e; simp [h.count, UInt32.ofNat_add]
    · simp [e, h.count]
  slabbed c x hx := by
    rw [mem_update_cons] at hx
    by_cases e : x = it
    · rw [e, Function.update_self]; exact hf
    · rw [Function.update_of_ne e]
      exact hx.elim (h.slabbed c x) fun hx => absurd hx.2 e
  clsid_zero c x hx := by
    rw [mem_update_cons] at hx
    by_cases e : x = it
    · rw [e, Function.update_self]
    · rw [Function.update_of_ne e]
      exact hx.elim (h.clsid_zero c x) fun hx => absurd hx.2 e

/-- **Popping** the first chunk. -/
theorem pop (h : FreelistsOk next prev flags clsid cls free) {l : List Ptr}
    (hl : free id = it :: l) (size : ℕ) (f : ItemFlags) :
    FreelistsOk next (setAt prev (next it) none) (Function.update flags it f) clsid
      (Function.update cls id { cls id with
        slots := next it, slCurr := (cls id).slCurr - 1
        requested := (cls id).requested + UInt64.ofNat size })
      (Function.update free id l) := by
  have hseg := h.seg id
  have hnd := h.nodup id
  rw [hl] at hseg hnd
  have hn : next it = l.head? := by rw [hseg.2.1, Option.or_none]
  have hsub : ∀ c x, x ∈ Function.update free id l c → x ∈ free c ∧ x ≠ it := by
    intro c x hx
    by_cases e : c = id
    · subst e
      rw [Function.update_self] at hx
      rw [hl]
      exact ⟨List.mem_cons_of_mem _ hx, ne_of_mem_of_not_mem hx (List.nodup_cons.mp hnd).1⟩
    · rw [Function.update_of_ne e] at hx
      refine ⟨hx, fun e' => e (h.disjoint c id x hx ?_)⟩
      rw [e', hl]
      exact List.mem_cons_self
  refine ⟨fun c => ?_, fun c => ?_, fun c c' x hx hx' => ?_, fun c => ?_, fun c => ?_,
    fun c x hx => ?_, fun c x hx => h.clsid_zero c x (hsub c x hx).1⟩
  · by_cases e : c = id
    · subst e
      rw [Function.update_self]
      exact hseg.popFront hnd
    · rw [Function.update_of_ne e]
      refine (h.seg c).congr (fun _ _ => rfl) fun x hx => setAt_of_ne fun e' => e ?_
      refine h.disjoint c id x hx ?_
      rw [hl]
      exact List.mem_cons_of_mem _ (List.mem_of_mem_head? (hn.symm.trans e'))
  · by_cases e : c = id
    · subst e; rw [Function.update_self]; exact (List.nodup_cons.mp hnd).2
    · rw [Function.update_of_ne e]; exact h.nodup c
  · exact h.disjoint c c' x (hsub c x hx).1 (hsub c' x hx').1
  · by_cases e : c = id
    · subst e; simp [hn]
    · simp [e, h.slots]
  · by_cases e : c = id
    · subst e; simp [h.count, hl, UInt32.ofNat_add]
    · simp [e, h.count]
  · rw [Function.update_of_ne (hsub c x hx).2]
    exact h.slabbed c x (hsub c x hx).1

theorem isDll (h : FreelistsOk next prev flags clsid cls free) (c : ℕ) :
    IsDll next prev (cls c).slots (free c).getLast? (free c) :=
  ⟨h.nodup c, h.slots c, rfl, h.seg c⟩

/-- The neighbours of a chunk are on its freelist. -/
theorem neighbours (h : FreelistsOk next prev flags clsid cls free) (hit : it ∈ free id) {x : Ptr}
    (hx : x ∉ free id) : next it ≠ some x ∧ prev it ≠ some x := by
  obtain ⟨a, b, hab⟩ := List.append_of_mem hit
  have hd := h.isDll id
  rw [hab] at hd hx
  obtain ⟨hp, hn⟩ := hd.mid
  rw [hp, hn]
  refine ⟨fun e => hx ?_, fun e => hx ?_⟩
  · exact List.mem_append_right _ (List.mem_cons_of_mem _ (List.mem_of_mem_head? e))
  · exact List.mem_append_left _ (List.mem_of_getLast? e)

/-- **Removing** a chunk, wherever it is. -/
theorem remove (h : FreelistsOk next prev flags clsid cls free) (hit : it ∈ free id) :
    FreelistsOk (setAt next (prev it) (next it)) (setAt prev (next it) (prev it)) flags clsid
      (Function.update cls id { cls id with
        slots := if (cls id).slots = some it then next it else (cls id).slots
        slCurr := (cls id).slCurr - 1 })
      (Function.update free id ((free id).erase it)) := by
  have hsub : ∀ c x, x ∈ Function.update free id ((free id).erase it) c → x ∈ free c := by
    intro c x hx
    by_cases e : c = id
    · subst e
      rw [Function.update_self] at hx
      exact List.mem_of_mem_erase hx
    · rwa [Function.update_of_ne e] at hx
  obtain ⟨a, b, -, hab, he⟩ := List.exists_erase_eq hit
  have hd := h.isDll id
  rw [hab] at hd
  have hr := hd.remove
  refine ⟨fun c => ?_, fun c => ?_, fun c c' x hx hx' => h.disjoint c c' x (hsub c x hx) (hsub c' x hx'),
    fun c => ?_, fun c => ?_, fun c x hx => h.slabbed c x (hsub c x hx),
    fun c x hx => h.clsid_zero c x (hsub c x hx)⟩
  · by_cases e : c = id
    · subst e
      rw [Function.update_self, he]
      exact hr.seg
    · rw [Function.update_of_ne e]
      have hne : ∀ x ∈ free c, x ∉ free id := fun x hx hx' => e (h.disjoint c id x hx hx')
      exact (h.seg c).congr (fun x hx => setAt_of_ne (h.neighbours hit (hne x hx)).2)
        fun x hx => setAt_of_ne (h.neighbours hit (hne x hx)).1
  · by_cases e : c = id
    · subst e; rw [Function.update_self]; exact (h.nodup c).erase it
    · rw [Function.update_of_ne e]; exact h.nodup c
  · by_cases e : c = id
    · subst e
      rw [Function.update_self, Function.update_self, he]
      exact hr.head_eq
    · rw [Function.update_of_ne e, Function.update_of_ne e]; exact h.slots c
  · by_cases e : c = id
    · subst e
      have hlen : (free c).length = ((free c).erase it).length + 1 := by
        rw [List.length_erase_of_mem hit]
        have := List.length_pos_of_mem hit
        omega
      rw [Function.update_self, Function.update_self]
      show (cls c).slCurr - 1 = _
      rw [h.count, hlen, UInt32.ofNat_add]
      exact add_sub_cancel_right _ _
    · rw [Function.update_of_ne e, Function.update_of_ne e]; exact h.count c

end FreelistsOk

/-! ## The operations on the store -/

/-- The freelists of a store. -/
abbrev Store.FreelistsOk (s : Store) (free : ℕ → List Ptr) : Prop :=
  Mdb.FreelistsOk s.heap.next s.heap.prev s.heap.itFlags s.heap.slabsClsid s.slabs.slabclass free

/-- What a run of `DoSlabsFree` calls on chunks `cs` of class `id` leaves alone. -/
structure FreeFrame (s s' : Store) (cs : List Ptr) (id : ℕ) (free : ℕ → List Ptr) : Prop where
  store : ∃ h cls, s' = { s with heap := h, slabs := { s.slabs with slabclass := cls } }
  same : ∀ x ∉ cs, s.heap.SameAt s'.heap x
  next : ∀ x ∉ cs, s'.heap.next x = s.heap.next x
  prev : ∀ x ∉ cs, x ∉ free id → s'.heap.prev x = s.heap.prev x
  linked : ∀ x, (s'.heap.itFlags x).linked = (s.heap.itFlags x).linked
  cls : ∀ c, ∃ slots slCurr requested, s'.slabs.slabclass c =
    { s.slabs.slabclass c with slots := slots, slCurr := slCurr, requested := requested }
  cls_ne : ∀ c, c ≠ id → s'.slabs.slabclass c = s.slabs.slabclass c

namespace FreelistsOk

variable {s : Store} {free : ℕ → List Ptr} {it : Ptr} {id : ℕ}

theorem doSlabsFree (h : s.FreelistsOk free) (hid : s.slabs.InRange id)
    (hnew : ∀ c, it ∉ free c) (size : ℕ) :
    (s.doSlabsFree it size id).FreelistsOk (Function.update free id (it :: free id)) := by
  have := h.push id hnew size { s.flags it with slabbed := true } rfl
  simp only [Store.doSlabsFree, if_pos hid]
  exact this

theorem doSlabsFree_frame (h : s.FreelistsOk free) (it : Ptr) (hid : s.slabs.InRange id)
    (size : ℕ) :
    FreeFrame s (s.doSlabsFree it size id) [it] id free := by
  simp only [Store.doSlabsFree, if_pos hid]
  refine ⟨⟨_, _, rfl⟩, fun x hx => ?_, fun x hx => ?_, fun x hx hf => ?_, fun x => ?_, fun c => ?_,
    fun c hc => Function.update_of_ne hc _ _⟩
  · have hx : x ≠ it := by simpa using hx
    refine ⟨rfl, rfl, rfl, rfl, ?_, ?_, rfl, rfl, rfl, rfl⟩
    · exact Function.update_of_ne hx _ _
    · exact Function.update_of_ne hx _ _
  · exact Function.update_of_ne (by simpa using hx) _ _
  · have hne : (s.slabs.slabclass id).slots ≠ some x := by
      rw [h.slots]; exact head?_ne_of_not_mem hf
    exact (setAt_of_ne hne).trans (Function.update_of_ne (by simpa using hx) _ _)
  · by_cases e : x = it
    · subst e
      simp [Store.setFlags, Store.setClsid, Store.setClass]
    · simp [Store.setFlags, Store.setClsid, Store.setClass, e]
  · by_cases e : c = id
    · subst e; exact ⟨_, _, _, Function.update_self _ _ _⟩
    · exact ⟨_, _, _, Function.update_of_ne e _ _⟩

theorem doSlabsFree_requested (s : Store) (it : Ptr) (size : ℕ) {id : ℕ} (hid : s.slabs.InRange id)
    (c : ℕ) : ((s.doSlabsFree it size id).slabs.slabclass c).requested =
      (s.slabs.slabclass c).requested - if c = id then UInt64.ofNat size else 0 := by
  simp only [Store.doSlabsFree, if_pos hid]
  by_cases e : c = id
  · subst e
    simp only [Store.setClass, Function.update_self, if_true]
  · simp only [Store.setClass, Store.setClsid, Store.setFlags, Function.update_of_ne e, if_neg e,
      sub_zero]

/-- Cutting up a page requests nothing. -/
theorem freeAll_requested (cs : List Ptr) (s : Store) {id : ℕ} (hid : s.slabs.InRange id) (c : ℕ) :
    ((cs.foldl (fun s it => s.doSlabsFree it 0 id) s).slabs.slabclass c).requested =
      (s.slabs.slabclass c).requested := by
  induction cs generalizing s with
  | nil => rfl
  | cons it cs ih =>
    have hid' : (s.doSlabsFree it 0 id).slabs.InRange id := by
      simp only [Store.doSlabsFree, if_pos hid]; exact hid
    rw [List.foldl_cons, ih _ hid', doSlabsFree_requested s it 0 hid]
    simp

/-- **A list of chunks is freed one by one**: the freelist ends up in front with them, reversed. -/
theorem freeAll (h : s.FreelistsOk free) (hid : s.slabs.InRange id) {cs : List Ptr}
    (hnd : cs.Nodup) (hnew : ∀ x ∈ cs, ∀ c, x ∉ free c) :
    (cs.foldl (fun s it => s.doSlabsFree it 0 id) s).FreelistsOk
        (Function.update free id (cs.reverse ++ free id)) ∧
      FreeFrame s (cs.foldl (fun s it => s.doSlabsFree it 0 id) s) cs id free := by
  induction cs generalizing s free with
  | nil =>
    refine ⟨by simpa using h, ⟨s.heap, _, rfl⟩, fun x _ => .refl _ x, fun _ _ => rfl,
      fun _ _ _ => rfl, fun _ => rfl, fun c => ⟨_, _, _, rfl⟩, fun _ _ => rfl⟩
  | cons it cs ih =>
    obtain ⟨hit, hnd⟩ := List.nodup_cons.mp hnd
    have hnew' : ∀ c, it ∉ free c := hnew it List.mem_cons_self
    have h1 := h.doSlabsFree hid hnew' 0
    have hfr := h.doSlabsFree_frame it hid 0
    obtain ⟨hp, cls, hs⟩ := hfr.store
    have hid' : (s.doSlabsFree it 0 id).slabs.InRange id := by rw [hs]; exact hid
    have hmem : ∀ x ∈ cs, ∀ c, x ∉ Function.update free id (it :: free id) c := by
      intro x hx c hm
      rcases (mem_update_cons free id c x it).mp hm with hm | ⟨-, rfl⟩
      · exact hnew x (List.mem_cons_of_mem _ hx) c hm
      · exact hit hx
    obtain ⟨h2, hfr2⟩ := ih h1 hid' hnd hmem
    rw [List.foldl_cons]
    refine ⟨?_, ?_, fun x hx => ?_, fun x hx => ?_, fun x hx hf => ?_,
      fun x => (hfr2.linked x).trans (hfr.linked x), fun c => ?_, fun c hc => ?_⟩
    · simpa using h2
    · obtain ⟨hp', cls', hs'⟩ := hfr2.store
      rw [hs']
      exact ⟨hp', cls', by rw [hs]⟩
    · rw [List.mem_cons, not_or] at hx
      exact (hfr.same x (by simpa using hx.1)).trans (hfr2.same x hx.2)
    · rw [List.mem_cons, not_or] at hx
      exact (hfr2.next x hx.2).trans (hfr.next x (by simpa using hx.1))
    · rw [List.mem_cons, not_or] at hx
      refine (hfr2.prev x hx.2 ?_).trans (hfr.prev x (by simpa using hx.1) hf)
      rw [mem_update_cons]
      simp [hf, hx.1]
    · obtain ⟨a, b, d, e⟩ := hfr.cls c
      obtain ⟨a', b', d', e'⟩ := hfr2.cls c
      exact ⟨a', b', d', by rw [e', e]⟩
    · exact (hfr2.cls_ne c hc).trans (hfr.cls_ne c hc)

theorem popSlot (h : s.FreelistsOk free) {l : List Ptr} (hl : free id = it :: l) (size : ℕ) :
    (s.popSlot it size id).FreelistsOk (Function.update free id l) := by
  have := h.pop hl size { s.flags it with slabbed := false }
  exact this

/-- A chunk's next one is another one. -/
theorem next_ne_self (h : s.FreelistsOk free) (hit : it ∈ free id) : s.heap.next it ≠ some it :=
  (h.isDll id).next_ne_self hit

theorem removeSlot (h : s.FreelistsOk free) (hit : it ∈ free id) :
    (s.removeSlot it id).FreelistsOk (Function.update free id ((free id).erase it)) := by
  have := h.remove hit
  simp only [Store.removeSlot, setAt_of_ne (h.next_ne_self hit)]
  exact this

end FreelistsOk

end Mdb
