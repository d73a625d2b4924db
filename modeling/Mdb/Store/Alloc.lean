import Mdb.Store.PullTail

/-!
# Allocation

`DoItemAlloc` asks the slab allocator up to five times, and makes room by evicting from the tail of
the class's `COLD` queue in between. Eviction spares items of hash value `curHv`.

* `Shrinks curHv s s' v v'`: items may be gone, none of hash value `curHv`, and nothing else changed;
* `Made curHv s s' v v' it`: the same, and `it` is a new item that nobody else knows;
* `Leaked s curHv n refs refs'`: what `n` rounds may have kept;
* `Inv.handedOut`: a free chunk is handed out; `Inv.fillHeader`: once it has its header, it is an item;
* `Inv.allocLoop`, **`Inv.doItemAlloc`**.
-/

namespace Mdb

/-- The data of item `x` is the same. -/
structure Heap.SameItem (h h' : Heap) (x : Ptr) : Prop where
  key : h'.key x = h.key x
  nbytes : h'.nbytes x = h.nbytes x
  exptime : h'.exptime x = h.exptime x
  cas : h'.cas x = h.cas x
  suffix : h'.suffix x = h.suffix x
  data : h'.data x = h.data x
  casBit : (h'.itFlags x).cas = (h.itFlags x).cas

theorem Heap.SameItem.trans {h₁ h₂ h₃ : Heap} {x : Ptr} (h : h₁.SameItem h₂ x)
    (h' : h₂.SameItem h₃ x) : h₁.SameItem h₃ x :=
  ⟨h'.key.trans h.key, h'.nbytes.trans h.nbytes, h'.exptime.trans h.exptime, h'.cas.trans h.cas,
    h'.suffix.trans h.suffix, h'.data.trans h.data, h'.casBit.trans h.casBit⟩

theorem Heap.SameAt.sameItem {h h' : Heap} {x : Ptr} (e : h.SameAt h' x) : h.SameItem h' x :=
  ⟨e.key, e.nbytes, e.exptime, e.cas, e.suffix, e.data, by rw [e.itFlags]⟩

theorem SameData.grows {s s' : Store} (h : SameData s s') : s.slabs.Grows s'.slabs :=
  ⟨h.powerLargest, fun c => (h.pages c).size, fun c x hx => by rw [(h.pages c).chunks]; exact hx⟩

theorem SameData.sameItem {s s' : Store} (h : SameData s s') (x : Ptr) : s.heap.SameItem s'.heap x :=
  ⟨by rw [h.key], by rw [h.nbytes], by rw [h.exptime], by rw [h.cas], by rw [h.suffix],
    by rw [h.data], h.casBit x⟩

/-- The settings, the hash function and the clocks are the same. -/
structure SameGlobals (s s' : Store) : Prop where
  settings : s'.settings = s.settings
  hash : s'.hash = s.hash
  now : s'.now = s.now
  currentTime : s'.currentTime = s.currentTime

theorem SameGlobals.trans {s₁ s₂ s₃ : Store} (h : SameGlobals s₁ s₂) (h' : SameGlobals s₂ s₃) :
    SameGlobals s₁ s₃ :=
  ⟨h'.settings.trans h.settings, h'.hash.trans h.hash, h'.now.trans h.now,
    h'.currentTime.trans h.currentTime⟩

theorem SameData.globals {s s' : Store} (h : SameData s s') : SameGlobals s s' :=
  ⟨h.settings, h.hash, h.now, h.currentTime⟩

/-- Items may be gone, but none of hash value `curHv`. -/
structure Shrinks (curHv : UInt32) (s s' : Store) (v v' : View) : Prop where
  data : SameData s s'
  sub : ∀ x ∈ v'.items, x ∈ v.items
  lost : ∀ x ∈ v.items, x ∉ v'.items → s.hv x ≠ curHv
  order : s.settings.lruMaintainerThread = false → ∀ q, (v'.queue q).Sublist (v.queue q)

theorem Pulled.shrinks {curLru : LruStatus} {curHv : UInt32} {doEvict : Bool} {L : List Ptr}
    {s s' : Store} {v v' : View} (h : Pulled curLru curHv doEvict L s s' v v')
    (hc : s.settings.lruMaintainerThread = false → curLru = .cold) : Shrinks curHv s s' v v' :=
  ⟨h.data, h.sub, fun x hx hn => (h.lost x hx hn).2.1, fun hoff => h.order (hc hoff) hoff⟩

theorem Quiet.shrinks {curHv : UInt32} {s s' : Store} {v v' : View} (h : Quiet s s' v v') :
    Shrinks curHv s s' v v' :=
  ⟨h.data, fun x hx => by rw [h.items] at hx; exact hx,
    fun x hx hn => absurd (by rw [h.items]; exact hx) hn, fun _ q => by rw [h.queue]⟩

theorem Shrinks.trans {curHv : UInt32} {s s' s'' : Store} {v v' v'' : View}
    (h : Shrinks curHv s s' v v') (h' : Shrinks curHv s' s'' v' v'') : Shrinks curHv s s'' v v'' where
  data := h.data.trans h'.data
  sub x hx := h.sub x (h'.sub x hx)
  lost x hx hn := by
    by_cases hm : x ∈ v'.items
    · rw [← h.data.hv]; exact h'.lost x hm hn
    · exact h.lost x hx hm
  order hoff q := (h'.order (by rw [h.data.settings]; exact hoff) q).trans (h.order hoff q)

/-- `it` is a new item; others may be gone. -/
structure Made (curHv : UInt32) (s s' : Store) (v v' : View) (it : Ptr) : Prop where
  globals : SameGlobals s s'
  casId : s'.casId = s.casId
  same : ∀ x, x ≠ it → v'.Alloc x → s.heap.SameItem s'.heap x
  sub : ∀ x ∈ v'.items, x ∈ v.items
  lost : ∀ x ∈ v.items, x ∉ v'.items → s.hv x ≠ curHv
  unlinked : it ∉ v'.items
  alloc : v'.Alloc it
  grows : s.slabs.Grows s'.slabs
  order : s.settings.lruMaintainerThread = false → ∀ q, (v'.queue q).Sublist (v.queue q)

/-- `n` references, if the maintainer thread is on. -/
def Store.slack (s : Store) (n : ℕ) : ℕ := if s.settings.lruMaintainerThread then n else 0

/-- What `n` rounds of `DoItemAlloc` may have kept: with the maintainer thread on, `n` references to an
item, but none to items of hash value `curHv`. -/
structure Leaked (s : Store) (curHv : UInt32) (n : ℕ) (refs refs' : Ptr → ℕ) : Prop where
  ge : ∀ x, refs x ≤ refs' x
  le : ∀ x, refs' x ≤ refs x + s.slack n
  own : ∀ x, s.hv x = curHv → refs' x = refs x

namespace Leaked

variable {s s' : Store} {curHv : UInt32} {n m : ℕ} {refs refs₁ refs₂ : Ptr → ℕ}

theorem refl (refs : Ptr → ℕ) : Leaked s curHv n refs refs :=
  ⟨fun _ => le_rfl, fun _ => Nat.le_add_right _ _, fun _ _ => rfl⟩

theorem trans (h : Leaked s curHv n refs refs₁) (h' : Leaked s curHv m refs₁ refs₂) :
    Leaked s curHv (n + m) refs refs₂ where
  ge x := (h.ge x).trans (h'.ge x)
  le x := by
    have h1 := h.le x
    have h2 := h'.le x
    simp only [Store.slack] at h1 h2 ⊢
    split_ifs at h1 h2 ⊢ <;> omega
  own x hx := (h'.own x hx).trans (h.own x hx)

theorem congr (h : Leaked s' curHv n refs refs₁) (hd : SameData s s') :
    Leaked s curHv n refs refs₁ where
  ge := h.ge
  le x := by have := h.le x; rwa [Store.slack, hd.settings] at this
  own x hx := h.own x (by rw [hd.hv]; exact hx)

theorem of_leaks {curLru : LruStatus} {L : List Ptr} (h : Leaks s curHv curLru L refs refs₁)
    (hm : s.settings.lruMaintainerThread = true) : Leaked s curHv 1 refs refs₁ where
  ge x := by rcases h x with e | ⟨-, -, -, e⟩ <;> omega
  le x := by
    rw [Store.slack, if_pos hm]
    rcases h x with e | ⟨-, -, -, e⟩ <;> omega
  own x hx := (h x).resolve_right fun hr => hr.2.1 hx

/-- Without the maintainer thread nothing is kept. -/
theorem off (h : Leaked s curHv n refs refs₁) (hm : s.settings.lruMaintainerThread = false) :
    refs₁ = refs := by
  funext x
  have h1 := h.ge x
  have h2 := h.le x
  rw [Store.slack, hm] at h2
  exact le_antisymm h2 h1

end Leaked

/-- The header of `it` is as given to `DoItemAlloc`, and its class the one `SlabsClsid` chooses. -/
structure Header (s : Store) (it : Ptr) (key : Key) (flags : Int32) (exptime : UInt32) (nbytes : ℕ) :
    Prop where
  clsid : clearLru (s.heap.slabsClsid it) =
    s.slabsClsid (itemMakeHeader (key.bytes.length + 1) flags nbytes)
  small : nbytes ≤ 2 ^ 30
  key : s.heap.key it = key
  suffix : s.heap.suffix it = itemSuffix flags nbytes
  exptime : s.heap.exptime it = exptime
  nbytes : s.heap.nbytes it = nbytes
  casBit : (s.heap.itFlags it).cas = s.settings.useCas

/-- The size that `DoItemAlloc` asks for: the class is chosen without the CAS field. -/
def Store.allocSize (s : Store) (key : Key) (flags : Int32) (nbytes : ℕ) : ℕ :=
  itemMakeHeader (key.bytes.length + 1) flags nbytes + if s.settings.useCas then 8 else 0

theorem Store.allocSize_le {s : Store} {key : Key} {flags : Int32} {nbytes n : ℕ}
    (h : itemMakeHeader (key.bytes.length + 1) flags nbytes ≤ n) :
    s.allocSize key flags nbytes ≤ n + 8 := by
  unfold Store.allocSize
  split_ifs <;> omega

/-- The `uint8_t` lengths are the lengths. -/
theorem Store.allocSize_eq (s : Store) (key : Key) (flags : Int32) {nbytes : ℕ} (h : nbytes < 2 ^ 31) :
    s.allocSize key flags nbytes = sizeofItem + key.bytes.length + 1 +
      (itemSuffix flags nbytes).length + nbytes + if s.settings.useCas then 8 else 0 := by
  have hk : (key.bytes.length + 1) % 256 = key.bytes.length + 1 :=
    Nat.mod_eq_of_lt (Nat.lt_of_le_of_lt (Nat.succ_le_succ key.length_le) (by decide))
  have hs := Nat.mod_eq_of_lt (length_itemSuffix_lt flags h)
  rw [Store.allocSize, itemMakeHeader, hk, hs]
  omega

/-- **What was asked for is `ITEM_ntotal`.** -/
theorem Header.ntotal {s : Store} {it : Ptr} {key : Key} {flags : Int32} {exptime : UInt32} {nbytes : ℕ}
    (h : Header s it key flags exptime nbytes) :
    s.heap.ntotal it = s.allocSize key flags nbytes := by
  rw [s.allocSize_eq key flags (h.small.trans_lt (by norm_num))]
  simp only [Heap.ntotal, Heap.nkey, h.key, h.suffix, h.nbytes, h.casBit]

theorem alloc_cons (v : View) (it : Ptr) (id : ℕ) (x : Ptr) :
    (∃ c, x ∈ Function.update v.alloc id (it :: v.alloc id) c) ↔ v.Alloc x ∨ x = it := by
  constructor
  · rintro ⟨c, hx⟩
    by_cases e : c = id
    · subst e
      rw [Function.update_self, List.mem_cons] at hx
      exact hx.symm.imp (fun hx => ⟨_, hx⟩) fun e => e
    · rw [Function.update_of_ne e] at hx
      exact .inl ⟨c, hx⟩
  · rintro (⟨c, hx⟩ | rfl)
    · by_cases e : c = id
      · subst e; exact ⟨c, by rw [Function.update_self]; exact List.mem_cons_of_mem _ hx⟩
      · exact ⟨c, by rw [Function.update_of_ne e]; exact hx⟩
    · exact ⟨id, by simp⟩

namespace Inv

variable {b : Base} {s : Store} {v : View} {refs : Ptr → ℕ} {it : Ptr} {id : ℕ}

/-- The items handed out are now those of `v` and `it`. -/
def handOut (v : View) (free : ℕ → List Ptr) (it : Ptr) (id : ℕ) : View :=
  { v with free := free, alloc := Function.update v.alloc id (it :: v.alloc id) }

theorem mem_handOut (v : View) (free : ℕ → List Ptr) {x : Ptr} (hne : x ≠ it) (c : ℕ) :
    x ∈ (handOut v free it id).alloc c ↔ x ∈ v.alloc c := by
  unfold handOut
  by_cases e : c = id
  · subst e
    simp [hne]
  · simp [e]

/-- The freelists were written and chunk `it` handed out, and nothing else that the invariant reads
has changed. -/
structure HandedOut (b : Base) (s t : Store) (v : View) (it : Ptr) : Prop where
  same : ∀ x, (x.isChunk = false ∨ ∃ c, x ∈ b.taken v c) → s.heap.SameAt t.heap x ∧
    t.heap.next x = s.heap.next x ∧ t.heap.prev x = s.heap.prev x
  linked : ∀ a, .chunk a ≠ it → ((t.heap.itFlags (.chunk a)).linked = true ↔ .chunk a ∈ v.items)
  unlinked : (t.heap.itFlags it).linked = false
  casBit : (t.heap.itFlags it).cas = s.settings.useCas
  lru : t.lru = s.lru
  assoc : t.assoc = s.assoc
  hash : t.hash = s.hash
  settings : t.settings = s.settings
  trace : t.trace = .alloc it :: s.trace
  crawlerCount : t.crawlers.crawlerCount = s.crawlers.crawlerCount

theorem HandedOut.sameAt {t : Store} (e : HandedOut b s t v it) {x : Ptr} (hx : v.Alloc x) :
    s.heap.SameAt t.heap x := by
  obtain ⟨c, hc⟩ := hx
  exact (e.same x (.inr ⟨c, mem_taken hc⟩)).1

theorem HandedOut.links {t : Store} (e : HandedOut b s t v it) (h : Inv b s v refs) {q : ℕ} {x : Ptr}
    (hx : x ∈ v.queue q) : t.heap.next x = s.heap.next x ∧ t.heap.prev x = s.heap.prev x := by
  refine (e.same x ?_).2
  rcases h.queue_cases hx with ⟨c, hc⟩ | hc
  · exact .inr ⟨c, mem_taken hc⟩
  · exact .inl hc

/-- **A free chunk is handed out**, to one holder: what is left to show is about the allocator. -/
theorem handedOut (h : Inv b s v refs) {t : Store} {free : ℕ → List Ptr} (e : HandedOut b s t v it)
    (hnv : ¬ v.Alloc it) (hslabs : t.SlabsOk free (b.taken (handOut v free it id)))
    (hok : ChunkOk t.heap (Function.update refs it 1) id it)
    (hcount : Counters t v.items (handOut v free it id).alloc b.moved.lost) :
    Inv b t (handOut v free it id) (Function.update refs it 1) := by
  have hin : it ∈ (handOut v free it id).alloc id := by simp [handOut]
  have hni : it ∉ v.items := fun hm => hnv (h.items_alloc it hm)
  have halloc : ∀ x, (handOut v free it id).Alloc x ↔ v.Alloc x ∨ x = it := alloc_cons v it id
  have hcr : ∀ q, s.heap.SameAt t.heap (.crawler q) := fun q => (e.same _ (.inl rfl)).1
  refine ⟨?_, ?_, ?_, hslabs, fun a => ?_, fun x hx => ?_, fun x q => ?_, fun q hq => ?_,
    fun c x hx => ?_, fun x hx => ?_, fun x => ?_, ?_, fun x => ?_, ?_, fun x hx => ?_,
    fun c x hx => ?_, hcount, h.crawlers.congr e.crawlerCount fun q => (hcr q).itFlags⟩
  · rw [e.lru]
    exact h.queues.congr fun q x hx => e.links h hx
  · rw [e.hash, e.assoc]
    exact h.table.congr fun x hx => (e.sameAt (h.items_alloc x hx)).key
  · rw [e.assoc]; exact h.hashpower_le
  · by_cases ex : .chunk a = it
    · rw [ex, e.unlinked]
      exact iff_of_false Bool.false_ne_true hni
    · exact e.linked a ex
  · exact (halloc x).mpr (.inl (h.items_alloc x hx))
  · refine (h.queue_iff x q).trans
      (or_congr (and_congr_right fun hx => ?_) (and_congr_right fun hx => ?_))
    · rw [(e.sameAt (h.items_alloc x hx)).slabsClsid]
    · subst hx
      rw [(hcr q).itFlags]
  · rw [(hcr q).itFlags] at hq
    rw [(hcr q).slabsClsid, (hcr q).nbytes, (hcr q).key]
    exact h.crawler q hq
  · by_cases ex : x = it
    · subst ex
      obtain rfl : c = id := hslabs.alloc_unique (mem_taken hx) (mem_taken hin)
      exact hok
    · have hx' := (mem_handOut v free ex c).mp hx
      exact chunkOk_congr (h.alloc_ok c x hx') (e.sameAt ⟨c, hx'⟩) (Function.update_of_ne ex _ _)
  · rw [Function.update_of_ne fun ex => hx ((halloc x).mpr (.inr ex))]
    exact h.refs_zero x fun ha => hx ((halloc x).mpr (.inl ha))
  · rw [e.trace, halloc, IsLive, h.live, or_comm]
  · rw [e.trace]
    exact ⟨fun hl => hnv ((h.live it).mp hl), h.trace⟩
  · by_cases ex : x = it
    · subst ex
      rw [Function.update_self]
      have := h.held_le x
      rw [h.refs_zero x hnv] at this
      omega
    · rw [Function.update_of_ne ex]; exact h.held_le x
  · obtain ⟨evs, he, hev⟩ := h.events
    refine ⟨.alloc it :: evs, by rw [e.trace, he]; rfl, fun ev hm => ?_⟩
    rcases List.mem_cons.mp hm with rfl | hm
    · trivial
    · exact hev ev hm
  · rw [e.settings]
    by_cases ex : x = it
    · subst ex; exact e.casBit
    · have ha := ((halloc x).mp hx).resolve_right ex
      rw [(e.sameAt ha).itFlags]
      exact h.casBit x ha
  · have e1 := (e.same x (.inr ⟨c, mem_taken_of_gone hx⟩)).1
    exact (h.gone c x hx).congr e1.slabsClsid e1.refcount e1.itFlags

/-- The linked flags of the chunks that stay are those of the items. -/
theorem linked_iff_of_alloc (h : Inv b s v refs) {s' : Store} {size : ℕ} {free' : ℕ → List Ptr}
    (fr : SlabsOk.AllocFrame s s' it size id v.free (b.taken v) free')
    (hfree : ∀ x, v.Alloc x → ∀ c, x ∉ free' c) {a : ℕ} (hne : .chunk a ≠ it) :
    (s'.heap.itFlags (.chunk a)).linked = true ↔ .chunk a ∈ v.items := by
  by_cases hfr : ∃ c, Ptr.chunk a ∈ free' c
  · obtain ⟨c, hc⟩ := hfr
    constructor
    · intro hl
      obtain ⟨c', hc', hl'⟩ := fr.linked _ (.inr ⟨c, hc⟩) hl
      obtain ⟨c'', ha⟩ := h.items_alloc _ ((h.linked_iff a).mp hl')
      exact absurd hc' (h.alloc_not_free ha c')
    · intro hm
      exact absurd hc (hfree _ (h.items_alloc _ hm) c)
  · rw [(fr.away _ hne fun c hc => hfr ⟨c, hc⟩).itFlags]
    exact h.linked_iff a

/-- `fillHeader` writes to its chunk only. -/
theorem fillHeader_handedOut (h : Inv b s v refs) {s' : Store} {size : ℕ} {free' : ℕ → List Ptr}
    (fr : SlabsOk.AllocFrame s s' it size id v.free (b.taken v) free')
    (hfree : ∀ x, v.Alloc x → ∀ c, x ∉ free' c) (hitc : it.isChunk = true)
    (hna : ∀ c, it ∉ b.taken v c) (st : ℕ → ItemStats) (key : Key) (flags : Int32)
    (exptime : UInt32) (nbytes : ℕ) :
    HandedOut b s ({ s' with itemStats := st }.fillHeader it id key flags exptime nbytes) v it := by
  obtain ⟨hp, sl, e, hst⟩ := fr.store
  have hset : s'.settings = s.settings := by rw [hst]
  have hflag : ({ s' with itemStats := st }.fillHeader it id key flags exptime nbytes).heap.itFlags it =
      { ItemFlags.none with cas := s'.settings.useCas } := Function.update_self _ _ _
  refine ⟨fun x hx => ?_, fun a ha => ?_, by rw [hflag]; rfl, by rw [hflag, hset], ?_, ?_, ?_, hset,
    ?_, ?_⟩
  · have hne : x ≠ it := by
      rintro rfl
      rcases hx with hx | ⟨c, hx⟩
      · rw [hitc] at hx; cases hx
      · exact hna c hx
    obtain ⟨e1, e2, e3⟩ := fr.same x hx
    refine ⟨e1.trans ?_, e2 ▸ Function.update_of_ne hne _ _, e3 ▸ Function.update_of_ne hne _ _⟩
    exact ⟨rfl, Function.update_of_ne hne _ _, Function.update_of_ne hne _ _, rfl,
      Function.update_of_ne hne _ _, Function.update_of_ne hne _ _, Function.update_of_ne hne _ _,
      rfl, Function.update_of_ne hne _ _, rfl⟩
  · rw [← h.linked_iff_of_alloc fr hfree ha]
    exact Iff.of_eq (congrArg (fun f : ItemFlags => f.linked = true) (Function.update_of_ne ha _ _))
  · show s'.lru = _; rw [hst]
  · show s'.assoc = _; rw [hst]
  · show s'.hash = _; rw [hst]
  · show s'.trace = _; rw [hst]
  · show s'.crawlers.crawlerCount = _; rw [hst]

theorem fillHeader_header (h : Inv b s v refs) {s' : Store} {size : ℕ} {free' : ℕ → List Ptr}
    (fr : SlabsOk.AllocFrame s s' it size id v.free (b.taken v) free') (hid : s.slabs.InRange id)
    (st : ℕ → ItemStats) (key : Key) (flags : Int32) (exptime : UInt32) {nbytes : ℕ}
    (hfit : itemMakeHeader (key.bytes.length + 1) flags nbytes ≤ (s.slabs.slabclass id).size)
    (hcl : id = s.slabsClsid (itemMakeHeader (key.bytes.length + 1) flags nbytes))
    (hcls : clearLru (id ||| (s'.allocLru exptime).val) = id) :
    Header ({ s' with itemStats := st }.fillHeader it id key flags exptime nbytes) it key flags
      exptime nbytes := by
  have hmax := (h.slabs.valid.size_le hid).trans h.slabs.valid.itemSizeMax_le
  have hclsid : ({ s' with itemStats := st }.fillHeader it id key flags exptime nbytes).heap.slabsClsid
      it = id ||| (s'.allocLru exptime).val := Function.update_self _ _ _
  have hflag : ({ s' with itemStats := st }.fillHeader it id key flags exptime nbytes).heap.itFlags it =
      { ItemFlags.none with cas := s'.settings.useCas } := Function.update_self _ _ _
  refine ⟨?_, (Nat.le_add_left _ _).trans (hfit.trans hmax), Function.update_self _ _ _,
    Function.update_self _ _ _, Function.update_self _ _ _, Function.update_self _ _ _, by rw [hflag]; rfl⟩
  rw [hclsid, hcls, hcl]
  exact (Store.slabsClsid_congr fr.powerLargest (fun c => (fr.sizes c).1) _).symm

/-- **A chunk with a header is an item**, held by whoever asked for it. -/
theorem fillHeader (h : Inv b s v refs) {size : ℕ} {tc tc' : UInt32} {s' : Store}
    (hs : s.doSlabsAlloc size id tc = (some it, tc', s')) (st : ℕ → ItemStats) (key : Key)
    (flags : Int32) (exptime : UInt32) {nbytes : ℕ} (hn : 2 ≤ nbytes)
    (hfit : itemMakeHeader (key.bytes.length + 1) flags nbytes ≤ (s.slabs.slabclass id).size)
    (hsize : size = s.allocSize key flags nbytes)
    (hcl : id = s.slabsClsid (itemMakeHeader (key.bytes.length + 1) flags nbytes)) (curHv : UInt32) :
    ∃ v', Inv b ({ s' with itemStats := st }.fillHeader it id key flags exptime nbytes) v'
        (Function.update refs it 1) ∧
      Made curHv s ({ s' with itemStats := st }.fillHeader it id key flags exptime nbytes) v v' it ∧
      refs it = 0 ∧
      Header ({ s' with itemStats := st }.fillHeader it id key flags exptime nbytes) it key flags
        exptime nbytes := by
  obtain ⟨sl, e, tc'', hf, -⟩ | ⟨it', tc'', s'', free', hf, hid, hna, hok, fr⟩ :=
    h.slabs.doSlabsAlloc size id tc
  · rw [hs] at hf; cases hf
  rw [hs] at hf
  obtain ⟨rfl, rfl, rfl⟩ : it = it' ∧ tc' = tc'' ∧ s' = s'' := by simpa using hf
  rw [taken_cons b v it id free'] at hok
  have hnv : ¬ v.Alloc it := fun ⟨c, hc⟩ => hna c (mem_taken hc)
  have hin : it ∈ (handOut v free' it id).alloc id := by simp [handOut]
  have hitc : it.isChunk = true := by
    obtain ⟨a, rfl⟩ := hok.isChunk (.inr (mem_taken hin)); rfl
  have hcid : clearLru id = id := Nat.mod_eq_of_lt (hid.2.trans_lt h.slabs.valid.powerLargest_lt)
  obtain ⟨hcls, hlt⟩ := clearLru_or id (s'.allocLru exptime)
  rw [hcid] at hcls hlt
  have hfree : ∀ x, v.Alloc x → ∀ c, x ∉ free' c := fun x hx c => by
    obtain ⟨c', hc⟩ := (alloc_cons v it id x).mpr (.inl hx)
    exact hok.alloc_not_free (mem_taken hc) c
  obtain ⟨t, ht⟩ : ∃ t, t = { s' with itemStats := st }.fillHeader it id key flags exptime nbytes :=
    ⟨_, rfl⟩
  have hout : HandedOut b s t v it := by
    rw [ht]; exact h.fillHeader_handedOut fr hfree hitc hna st key flags exptime nbytes
  have hhd : Header t it key flags exptime nbytes := by
    rw [ht]; exact h.fillHeader_header fr hid st key flags exptime hfit hcl hcls
  have hsl : t.slabs = s'.slabs := by rw [ht]; rfl
  have hslabs : t.SlabsOk free' (b.taken (handOut v free' it id)) := by
    simp only [Store.SlabsOk, hsl, show t.settings = s'.settings by rw [ht]; rfl]
    refine hok.congr fun c x hx => ?_
    have hne : x ≠ it := by rintro rfl; exact hok.alloc_not_free (mem_taken hin) c hx
    rw [ht]
    exact ⟨Function.update_of_ne hne _ _, Function.update_of_ne hne _ _,
      Function.update_of_ne hne _ _, Function.update_of_ne hne _ _⟩
  have hchunk : ChunkOk t.heap (Function.update refs it 1) id it := by
    have hclsid : t.heap.slabsClsid it = id ||| (s'.allocLru exptime).val := by
      rw [ht]; exact Function.update_self _ _ _
    have hflag : t.heap.itFlags it = { ItemFlags.none with cas := s'.settings.useCas } := by
      rw [ht]; exact Function.update_self _ _ _
    have hrc : t.heap.refcount it = 1 := by rw [ht]; exact fr.refcount
    refine ⟨by rw [hclsid]; exact hcls, by rw [hclsid]; exact hlt, by rw [hflag]; rfl,
      by rw [hhd.nbytes]; exact hn, ?_, hrc.ge⟩
    rw [hrc, hflag, Function.update_self]
    rfl
  obtain ⟨hp, sl, e, hst⟩ := fr.store
  have hcount : Counters t v.items (handOut v free' it id).alloc b.moved.lost := by
    refine h.counters.alloc (by rw [ht]; show s'.stats = _; rw [hst]) hout.assoc ?_ ?_
      (fun c => by rw [hsl]; exact fr.requested c) (fun c => by rw [hsl]; exact (fr.sizes c).1)
      (fun y hy => (hout.sameAt (h.items_alloc y hy)).ntotal)
      fun c y hy => (hout.sameAt ⟨c, hy⟩).ntotal
    · rw [hsize, hhd.ntotal, Store.allocSize, Store.allocSize, hout.settings]
    · rw [hsize]; exact Store.allocSize_le hfit
  rw [← ht]
  refine ⟨_, h.handedOut hout hnv hslabs hchunk hcount, ⟨⟨hout.settings, hout.hash, ?_, ?_⟩, ?_,
    fun x hne hx => ?_, fun x hx => hx, fun x hx hn => absurd hx hn,
    fun hm => hnv (h.items_alloc it hm), ⟨id, hin⟩, ?_, fun _ _ => .refl _⟩, h.refs_zero it hnv, hhd⟩
  · rw [ht]; show s'.now = _; rw [hst]
  · rw [ht]; show s'.currentTime = _; rw [hst]
  · rw [ht]; show s'.casId = _; rw [hst]
  · exact (hout.sameAt (((alloc_cons v it id x).mp hx).resolve_right hne)).sameItem
  · rw [ht]; exact ⟨fr.powerLargest, fun c => (fr.sizes c).1, fr.chunks⟩

/-! ## The loop -/

/-- The walks of `DoItemAlloc` over `WARM` and `COLD` queues. -/
theorem pullExact (h : Inv b s v refs) (hrep : s.settings.tailRepairTime = 0) (id : ℕ)
    {curLru : LruStatus} (hc : curLru = .warm ∨ curLru = .cold)
    (hoff : s.settings.lruMaintainerThread = false → curLru = .cold) (tc : UInt64) (doEvict : Bool)
    {curHv : UInt32} (hle : ∀ x, s.hv x ≠ curHv → refs x ≤ 65534) :
    ∃ v', Inv b (s.itemLRUPullTail id curLru tc doEvict curHv).2 v' refs ∧
      Shrinks curHv s (s.itemLRUPullTail id curLru tc doEvict curHv).2 v v' := by
  obtain ⟨v', refs', L, h', hp, hl⟩ := h.itemLRUPullTail hrep id curLru tc doEvict curHv hle
  rw [hl.none hc] at h'
  exact ⟨v', h', hp.shrinks hoff⟩

/-- The walk before the allocator is asked. -/
theorem pullFirst (h : Inv b s v refs) (hrep : s.settings.tailRepairTime = 0) (id : ℕ)
    {curHv : UInt32} (hle : ∀ x, s.hv x ≠ curHv → refs x ≤ 65534) :
    ∃ s' v', s' = (if s.settings.lruMaintainerThread then s
        else (s.itemLRUPullTail id .cold 0 false curHv).2) ∧ Inv b s' v' refs ∧
      Shrinks curHv s s' v v' := by
  split_ifs
  · exact ⟨s, v, rfl, h, (Quiet.refl s v).shrinks⟩
  · obtain ⟨v', h', p⟩ := h.pullExact hrep id (.inr rfl) (fun _ => rfl) 0 false hle
    exact ⟨_, v', rfl, h', p⟩

/-- The walks after the allocator has failed. Only the one over the `HOT` queue keeps references. -/
theorem pullAfter (h : Inv b s v refs) (hrep : s.settings.tailRepairTime = 0) (id : ℕ) (tc : UInt64)
    {curHv : UInt32} (hle : ∀ x, s.hv x ≠ curHv → refs x + s.slack 1 ≤ 65534) :
    ∃ s' v' refs', s' = (if s.settings.lruMaintainerThread then
        let s := (s.itemLRUPullTail id .hot tc false curHv).2
        let s := (s.itemLRUPullTail id .warm tc false curHv).2
        (s.itemLRUPullTail id .cold tc true curHv).2
      else (s.itemLRUPullTail id .cold 0 true curHv).2) ∧ Inv b s' v' refs' ∧
      Shrinks curHv s s' v v' ∧ Leaked s curHv 1 refs refs' := by
  have hle0 : ∀ x, s.hv x ≠ curHv → refs x ≤ 65534 := fun x hx => by have := hle x hx; omega
  cases hm : s.settings.lruMaintainerThread with
  | false =>
    obtain ⟨v', h', p⟩ := h.pullExact hrep id (.inr rfl) (fun _ => rfl) 0 true hle0
    exact ⟨_, v', refs, rfl, h', p, .refl _⟩
  | true =>
    have hslack : s.slack 1 = 1 := by rw [Store.slack, if_pos hm]
    obtain ⟨v1, refs1, L, h1, hp1, hl1⟩ := h.itemLRUPullTail hrep id .hot tc false curHv hle0
    have p1 := hp1.shrinks fun hoff => by rw [hm] at hoff; cases hoff
    have lk : Leaked s curHv 1 refs refs1 := .of_leaks hl1 hm
    have hle1 : ∀ x, s.hv x ≠ curHv → refs1 x ≤ 65534 := fun x hx => by
      have := hle x hx
      have := lk.le x
      omega
    obtain ⟨v2, h2, p2⟩ := h1.pullExact (by rw [p1.data.settings]; exact hrep) id (.inl rfl)
      (fun hoff => by rw [p1.data.settings, hm] at hoff; cases hoff) tc false
      (fun x hx => hle1 x (by rw [← p1.data.hv]; exact hx))
    have p12 := p1.trans p2
    obtain ⟨v3, h3, p3⟩ := h2.pullExact (by rw [p12.data.settings]; exact hrep) id (.inr rfl)
      (fun _ => rfl) tc true (fun x hx => hle1 x (by rw [← p12.data.hv]; exact hx))
    exact ⟨_, v3, refs1, rfl, h3, p12.trans p3, lk⟩

theorem slabs_unchanged (h : Inv b s v refs) {sl : Slabs} (e : Env) (hsl : s.slabs.Unchanged sl) :
    Inv b { s with slabs := sl, env := e } v refs :=
  ⟨h.queues, h.table, h.hashpower_le, h.slabs.unchanged hsl, h.linked_iff, h.items_alloc,
    h.queue_iff, h.crawler, h.alloc_ok, h.refs_zero, h.live, h.trace, h.held_le, h.events, h.casBit,
    h.gone, h.counters.congr ⟨rfl, rfl⟩ h.counters.hash
      (fun c => ⟨hsl.requested c, (hsl.pages.cls c).size⟩) (fun _ _ => rfl) fun _ _ _ => rfl,
    h.crawlers.congr rfl fun _ => rfl⟩

/-- **The loop of `DoItemAlloc`**: it gives up, or the allocator had a chunk. -/
theorem allocLoop (b : Base) (ntotal id : ℕ) (curHv : UInt32) (fuel : ℕ) :
    ∀ (s : Store) (v : View) (refs : Ptr → ℕ) (tc : UInt32) (n : ℕ), Inv b s v refs →
    s.settings.tailRepairTime = 0 → (∀ x, s.hv x ≠ curHv → refs x + s.slack fuel ≤ 65534) →
    ∃ refs', Leaked s curHv fuel refs refs' ∧
    ((∃ n' s' v', Store.allocLoop ntotal id curHv fuel s tc n = (none, n', s') ∧ Inv b s' v' refs' ∧
      Shrinks curHv s s' v v') ∨
    ∃ it n' s' s₀ v₀ tc₀ tc', Store.allocLoop ntotal id curHv fuel s tc n = (some it, n', s') ∧
      Inv b s₀ v₀ refs' ∧ Shrinks curHv s s₀ v v₀ ∧
      s₀.doSlabsAlloc ntotal id tc₀ = (some it, tc', s')) := by
  induction fuel with
  | zero =>
    intro s v refs tc n h hrep hle
    exact ⟨refs, .refl _, .inl ⟨n, s, v, rfl, h, (Quiet.refl s v).shrinks⟩⟩
  | succ fuel ih =>
    intro s v refs tc n h hrep hle
    have hle0 : ∀ x, s.hv x ≠ curHv → refs x ≤ 65534 := fun x hx => by have := hle x hx; omega
    obtain ⟨s1, v1, hs1, h1, p1⟩ := h.pullFirst hrep id hle0
    simp only [Store.allocLoop, ← hs1]
    obtain ⟨sl, e, tc', hf, hun⟩ | ⟨it, tc', s2, free', hf, -⟩ := h1.slabs.doSlabsAlloc ntotal id tc
    · have h2 := h1.slabs_unchanged e hun
      have q2 : Quiet s1 { s1 with slabs := sl, env := e } v1 v1 :=
        ⟨⟨rfl, rfl, rfl, rfl, rfl, rfl, fun _ => rfl, rfl, rfl, rfl, rfl, rfl,
          hun.pages.cls, hun.pages.powerLargest⟩, rfl, rfl, rfl⟩
      obtain ⟨s2, hs2⟩ : ∃ s2, s2 = ({ s1 with slabs := sl, env := e } : Store) := ⟨_, rfl⟩
      have p2 : Shrinks curHv s s2 v v1 := p1.trans (hs2 ▸ q2.shrinks)
      rw [← hs2] at h2 hf
      obtain ⟨tc2, htc2⟩ : ∃ tc2, tc2 = if s2.settings.expirezeroDoesNotEvict then
          tc' - s2.lru.itemSizes (clearLru id) else tc' := ⟨_, rfl⟩
      have hslack : ∀ n, s2.slack n = s.slack n := fun n => by simp only [Store.slack, p2.data.settings]
      have hadd : s.slack (fuel + 1) = s.slack 1 + s.slack fuel := by
        simp only [Store.slack]; split_ifs <;> omega
      obtain ⟨s3, v3, refs3, hs3, h3, p3, lk3⟩ := h2.pullAfter
        (by rw [p2.data.settings]; exact hrep) id tc2.toUInt64 (fun x hx => by
          have := hle x (by rw [← p2.data.hv]; exact hx)
          rw [hslack]; omega)
      have p13 := p2.trans p3
      have lk : Leaked s curHv 1 refs refs3 := lk3.congr p2.data
      simp only [hf, ← htc2]
      rw [← hs3]
      obtain ⟨refs', lk', hr⟩ := ih s3 v3 refs3 tc2 (n + 1) h3
        (by rw [p13.data.settings]; exact hrep) (fun x hx => by
          have := hle x (by rw [← p13.data.hv]; exact hx)
          have := lk.le x
          rw [show s3.slack fuel = s.slack fuel by simp only [Store.slack, p13.data.settings]]
          omega)
      refine ⟨refs', by rw [add_comm]; exact lk.trans (lk'.congr p13.data), ?_⟩
      rcases hr with ⟨n', s', v', he, h', p'⟩ | ⟨it, n', s', s₀, v₀, tc₀, tc'', he, h', p', hsl⟩
      · exact .inl ⟨n', s', v', he, h', p13.trans p'⟩
      · exact .inr ⟨it, n', s', s₀, v₀, tc₀, tc'', he, h', p13.trans p', hsl⟩
    · simp only [hf]
      exact ⟨refs, .refl _, .inr ⟨it, n, s2, s1, v1, tc, tc', rfl, h1, p1, hf⟩⟩

/-! ## `DoItemAlloc` -/

/-- `DoItemAlloc` around its loop: only counters move. -/
theorem doItemAlloc_cases (s : Store) (key : Key) (flags : Int32) (exptime : UInt32) (nbytes : ℕ)
    (curHv : UInt32) : (s.slabsClsid (itemMakeHeader (key.bytes.length + 1) flags nbytes) = 0 ∧
      s.doItemAlloc key flags exptime nbytes curHv = (none, s)) ∨
    ∃ ntotal id, (itemMakeHeader (key.bytes.length + 1) flags nbytes ≤ (s.slabs.slabclass id).size ∧
        ntotal = s.allocSize key flags nbytes ∧
        id = s.slabsClsid (itemMakeHeader (key.bytes.length + 1) flags nbytes)) ∧
      (∀ n s', Store.allocLoop ntotal id curHv 5 s 0 0 = (none, n, s') →
        ∃ st, s.doItemAlloc key flags exptime nbytes curHv = (none, { s' with itemStats := st })) ∧
      ∀ it n s', Store.allocLoop ntotal id curHv 5 s 0 0 = (some it, n, s') →
        ∃ st, s.doItemAlloc key flags exptime nbytes curHv =
          (some it, { s' with itemStats := st }.fillHeader it id key flags exptime nbytes) := by
  by_cases h0 : s.slabsClsid (itemMakeHeader (key.bytes.length + 1) flags nbytes) = 0
  · exact .inl ⟨h0, by simp only [Store.doItemAlloc, if_pos h0]⟩
  · refine .inr ⟨if s.settings.useCas then itemMakeHeader (key.bytes.length + 1) flags nbytes + 8
        else itemMakeHeader (key.bytes.length + 1) flags nbytes,
      s.slabsClsid (itemMakeHeader (key.bytes.length + 1) flags nbytes),
      ⟨s.slabsClsid_fits h0, ?_, rfl⟩, fun n s' he => ?_, fun it n s' he => ?_⟩
    · unfold Store.allocSize
      split_ifs <;> rfl
    all_goals
      simp only [Store.doItemAlloc, if_neg h0]
      rw [he]
      by_cases hn : 0 < n <;> simp only [hn, if_true, if_false] <;> exact ⟨_, rfl⟩

/-- **`DoItemAlloc`** fails or makes a new item. -/
theorem doItemAlloc (h : Inv b s v refs) (hrep : s.settings.tailRepairTime = 0) (key : Key)
    (flags : Int32) (exptime : UInt32) {nbytes : ℕ} (hn : 2 ≤ nbytes) (curHv : UInt32)
    (hle : ∀ x, s.hv x ≠ curHv → refs x + s.slack 5 ≤ 65534) :
    ∃ refs', Leaked s curHv 5 refs refs' ∧
    ((∃ s' v', s.doItemAlloc key flags exptime nbytes curHv = (none, s') ∧ Inv b s' v' refs' ∧
      Shrinks curHv s s' v v') ∨
    ∃ it s' v', s.doItemAlloc key flags exptime nbytes curHv = (some it, s') ∧
      Inv b s' v' (Function.update refs' it 1) ∧ Made curHv s s' v v' it ∧ refs' it = 0 ∧
      Header s' it key flags exptime nbytes) := by
  rcases doItemAlloc_cases s key flags exptime nbytes curHv with
    ⟨-, e⟩ | ⟨ntotal, id, ⟨hfit, hsize, hid⟩, hnone, hsome⟩
  · exact ⟨refs, .refl _, .inl ⟨s, v, e, h, (Quiet.refl s v).shrinks⟩⟩
  obtain ⟨refs', lk, hr⟩ := allocLoop b ntotal id curHv 5 s v refs 0 0 h hrep hle
  refine ⟨refs', lk, ?_⟩
  rcases hr with ⟨n', s', v', he, h', p'⟩ | ⟨it, n', s', s₀, v₀, tc₀, tc', he, h', p', hsl⟩
  · obtain ⟨st, e⟩ := hnone n' s' he
    exact .inl ⟨_, v', e, h'.aux st s'.crawlers s'.itemLocks s'.env rfl,
      p'.trans (aux_quiet s' v' st s'.crawlers s'.itemLocks s'.env).shrinks⟩
  · obtain ⟨st, e⟩ := hsome it n' s' he
    obtain ⟨v', hv', md, hr, hd⟩ := h'.fillHeader hsl st key flags exptime hn
      (by rw [(p'.data.pages _).size]; exact hfit)
      (by rw [hsize]; simp only [Store.allocSize, p'.data.settings])
      (by rw [hid, Store.slabsClsid_congr p'.data.powerLargest fun c => (p'.data.pages c).size]) curHv
    refine .inr ⟨it, _, v', e, hv', ⟨p'.data.globals.trans md.globals,
      md.casId.trans p'.data.casId, fun x hne hx => (p'.data.sameItem x).trans (md.same x hne hx),
      fun x hx => p'.sub x (md.sub x hx), fun x hx hn => ?_, md.unlinked, md.alloc,
      p'.data.grows.trans md.grows, fun hoff q => ?_⟩, hr, hd⟩
    · by_cases hm : x ∈ v₀.items
      · rw [← p'.data.hv]; exact md.lost x hm hn
      · exact p'.lost x hx hm
    · exact (md.order (by rw [p'.data.settings]; exact hoff) q).trans (p'.order hoff q)

end Inv

end Mdb
