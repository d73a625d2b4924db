import Mdb.Lib.Bytes
import Mdb.Store.Lookup

/-!
# `DoStoreItem`

Along every path of `DoStoreItem` the references balance, and the answer and the new entry are those
of the timed map.

* `Inv.get_cases`: a `DoItemGet` misses, after it may have dropped a dead item, or hits;
* `StoreEffect`: what a store request does, in terms of `storeStatus` and `storeEntry`;
* `joinData_bytes`: the bytes of a joined item;
* **`Inv.doStoreItem`**.
-/

namespace Mdb

/-- What a store request for item `it` with the answer `r` has done. `refs` are the references held
to items throughout. -/
structure StoreEffect (op : NreadOpType) (it : Ptr) (refs : Ptr → ℕ) (s s' : Store) (v v' : View)
    (r : StoreItemType) : Prop where
  globals : SameGlobals s s'
  status : r = storeStatus op (s.reads (s.heap.key it)) (s.heap.getCas it) ∨
    op.Joins ∧ storeStatus op (s.reads (s.heap.key it)) (s.heap.getCas it) = .stored ∧ r = .notStored
  refused : r ≠ .stored → s'.lookup (s.heap.key it) = s.reads (s.heap.key it)
  stored : r = .stored → ∃ item, s'.lookup (s.heap.key it) = some (storeEntry op
    (s.reads (s.heap.key it)) (s.entry it) item (UInt64.ofNat (s.casId + 1)))
  casId : s'.casId = if r = .stored then s.casId + 1 else s.casId
  others : ∀ k, k ≠ s.heap.key it → s'.lookup k = s.lookup k ∨ s'.lookup k = none ∧ op.Joins ∧
    storeStatus op (s.reads (s.heap.key it)) (s.heap.getCas it) = .stored
  same : ∀ x, 1 ≤ refs x → (x = it → r ≠ .stored ∨ op.Joins) → s.heap.SameItem s'.heap x
  unlinked : ∀ x, 1 ≤ refs x → (x = it → r ≠ .stored ∨ op.Joins) → x ∉ v.items → x ∉ v'.items

namespace StoreEffect

variable {op : NreadOpType} {it : Ptr} {refs : Ptr → ℕ} {s s' : Store} {v v' : View}
  {r : StoreItemType}

/-- The request is refused, and nothing a reader sees has changed. -/
theorem of_refused (hd : SameData s s') (hi : ∀ x ∈ v'.items, x ∈ v.items)
    (hl : s'.lookup = Function.update s.lookup (s.heap.key it) (s.reads (s.heap.key it)))
    (hr : r ≠ .stored) (hst : r = storeStatus op (s.reads (s.heap.key it)) (s.heap.getCas it)) :
    StoreEffect op it refs s s' v v' r where
  globals := hd.globals
  status := .inl hst
  refused _ := by rw [hl, Function.update_self]
  stored e := absurd e hr
  casId := by rw [if_neg hr]; exact hd.casId
  others k hk := .inl (by rw [hl, Function.update_of_ne hk])
  same x _ _ := hd.sameItem x
  unlinked x _ _ hx hx' := hx (hi x hx')

/-- The item itself is stored. -/
theorem of_stored (hop : ¬ op.Joins) (hg : SameGlobals s s')
    (hs : ∀ y, y ≠ it → s.heap.SameItem s'.heap y) (hi : ∀ x ∈ v'.items, x = it ∨ x ∈ v.items)
    (hl : s'.lookup = Function.update s.lookup (s.heap.key it)
      (some { s.entry it with cas := UInt64.ofNat (s.casId + 1) })) (hc : s'.casId = s.casId + 1)
    (hst : storeStatus op (s.reads (s.heap.key it)) (s.heap.getCas it) = .stored) :
    StoreEffect op it refs s s' v v' .stored where
  globals := hg
  status := .inl hst.symm
  refused hr := absurd rfl hr
  stored _ := by
    refine ⟨it, ?_⟩
    rw [hl, Function.update_self, storeEntry]
    · exact fun e he => absurd (.inl he) hop
    · exact fun e he => absurd (.inr he) hop
  casId := by rw [if_pos rfl]; exact hc
  others k hk := .inl (by rw [hl, Function.update_of_ne hk])
  same x _ hx := hs x fun e => (hx e).elim (fun h => h rfl) hop
  unlinked x _ hx hn hx' := (hi x hx').elim (fun e => (hx e).elim (fun h => h rfl) hop) hn

end StoreEffect

namespace Inv

variable {b : Base} {s : Store} {v : View} {refs : Ptr → ℕ}

/-! ## Looking for the old item -/

/-- A `DoItemGet` that returns nothing. -/
structure Misses (b : Base) (s s' : Store) (v v' : View) (refs : Ptr → ℕ) (k : Key) : Prop where
  inv : Inv b s' v' refs
  data : SameData s s'
  time : s'.heap.time = s.heap.time
  reads : s.reads k = none
  lookup : s'.lookup = Function.update s.lookup k none
  sub : ∀ x ∈ v'.items, x ∈ v.items
  keys : ∀ x ∈ v'.items, s'.heap.key x ≠ k
  order : ∀ q, (v'.queue q).Sublist (v.queue q)

/-- A `DoItemGet` that returns item `x`. -/
structure Hits (b : Base) (s s' : Store) (v : View) (refs : Ptr → ℕ) (k : Key) (x : Ptr) : Prop where
  inv : Inv b s' v (Function.update refs x (refs x + 1))
  quiet : Quiet s s' v v
  mem : x ∈ v.items
  key : s.heap.key x = k
  reads : s.reads k = some (s.entry x)
  lookup : s.lookup k = some (s.entry x)
  alive : ¬ s.isDead x

/-- **`DoItemGet`.** -/
theorem get_cases (h : Inv b s v refs) (k : Key)
    (hle : ∀ x ∈ v.items, s.heap.key x = k → refs x ≤ 65534) :
    (∃ s' v', s.doItemGet k (s.hash k) = (none, s') ∧ Misses b s s' v v' refs k) ∨
      ∃ x s', s.doItemGet k (s.hash k) = (some x, s') ∧ Hits b s s' v refs k x := by
  rcases h.key_cases k with ⟨x, hx, hk⟩ | hn
  · by_cases hd : s.isDead x
    · obtain ⟨s', v', he, h', d⟩ := h.doItemGet_dead hx hk hd (hle x hx hk)
      refine .inl ⟨s', v', he, h', d.data, d.time, h.reads_dead hx hk hd, ?_, fun y hy => ?_,
        fun y hy e => ?_, d.order⟩
      · rw [h.lookup_drops h' d hx, hk]
      · rw [d.items] at hy; exact List.mem_of_mem_erase hy
      · rw [d.items, h.table.holds.nodup.mem_erase_iff] at hy
        rw [d.data.key] at e
        exact hy.1 (h.table.keys y hy.2 x hx (by rw [e, hk]))
    · obtain ⟨s', he, h', q⟩ := h.doItemGet_hit hx hk hd
      exact .inr ⟨x, s', he, h', q, hx, hk, h.reads_hit hx hk hd, h.lookup_mem hx hk, hd⟩
  · refine .inl ⟨s, v, h.doItemGet_none hn, h, .refl s, rfl, h.reads_none hn, ?_, fun y hy => hy, hn,
      fun _ => .refl _⟩
    rw [← h.lookup_none hn, Function.update_eq_self]

/-! ## The joined value -/

theorem bytes_eq_read (h : Heap) (x : Ptr) : h.bytes x = Bytes.read (h.data x) 0 (h.nbytes x) := by
  simp only [Heap.bytes, Bytes.read, Nat.zero_add]

theorem take_bytes (h : Heap) (x : Ptr) :
    (h.bytes x).take ((h.bytes x).length - 2) = Bytes.read (h.data x) 0 (h.nbytes x - 2) := by
  simp only [Heap.bytes, Bytes.read, Nat.zero_add]
  rw [← List.map_take, List.length_map, List.length_range, List.take_range,
    Nat.min_eq_left (Nat.sub_le _ _)]

/-- **The bytes of a joined item.** -/
theorem joinData_bytes (s : Store) {op : NreadOpType} (hop : op.Joins) (it oldIt newIt : Ptr)
    (hn : s.heap.nbytes newIt = s.heap.nbytes it + s.heap.nbytes oldIt - 2)
    (h1 : 2 ≤ s.heap.nbytes it) (h2 : 2 ≤ s.heap.nbytes oldIt) :
    (s.joinData op it oldIt newIt).heap.bytes newIt =
      joinValue op (s.heap.bytes oldIt) (s.heap.bytes it) := by
  have htile : ∀ (d src src' : ℕ → UInt8) (n n' : ℕ),
      Bytes.read (memcpy (memcpy d 0 src n) (n - 2) src' n') 0 (n - 2 + n') =
        Bytes.read src 0 (n - 2) ++ Bytes.read src' 0 n' := fun d src src' n n' => by
    have := @Bytes.read_tile _ d src src' 0 n n' (n - 2) (Nat.sub_le _ _)
    rwa [Nat.zero_add] at this
  rw [bytes_eq_read]
  simp only [Store.joinData, Store.setData, Function.update_self, joinValue, take_bytes]
  rw [hn, bytes_eq_read, bytes_eq_read]
  rcases hop with rfl | rfl
  · rw [if_pos rfl, if_pos rfl, show s.heap.nbytes it + s.heap.nbytes oldIt - 2 =
      s.heap.nbytes oldIt - 2 + s.heap.nbytes it by omega]
    exact htile _ _ _ _ _
  · rw [if_neg (by decide), if_neg (by decide), show s.heap.nbytes it + s.heap.nbytes oldIt - 2 =
      s.heap.nbytes it - 2 + s.heap.nbytes oldIt by omega]
    exact htile _ _ _ _ _

/-! ## The paths with an old item -/

section

variable {s₁ : Store} {x it : Ptr} {op : NreadOpType}

/-- Giving the old item back, after what a reader does not see. -/
theorem giveBack (hheld : b.held x ≤ refs x) (hle : refs x ≤ 65534) {t : Store} {u : View}
    (ht : Inv b t u (Function.update refs x (refs x + 1))) :
    ∃ v', Inv b (t.doItemRemove x) v' refs ∧ Quiet t (t.doItemRemove x) u v' := by
  have hrc := ht.refcount_le (ht.alloc_of_refs (x := x) (by rw [Function.update_self]; omega))
  rw [Function.update_self] at hrc
  exact ht.release hheld (by omega)

/-- The old item is given back, and then the new one, which nobody else has a reference to. -/
theorem giveBack_both {refs' : Ptr → ℕ} {n : Ptr} (hxn : x ≠ n) (hrn : refs' n = 0)
    (hheld : ∀ y, b.held y ≤ refs' y) (hle : refs' x ≤ 65534) {t : Store} {u : View}
    (ht : Inv b t u (Function.update (Function.update refs' x (refs' x + 1)) n 1)) :
    ∃ v₁ v₂, Inv b (t.doItemRemove x) v₁ (Function.update refs' n (refs' n + 1)) ∧
      Quiet t (t.doItemRemove x) u v₁ ∧ Inv b ((t.doItemRemove x).doItemRemove n) v₂ refs' ∧
      Quiet (t.doItemRemove x) ((t.doItemRemove x).doItemRemove n) v₁ v₂ := by
  have hcomm : Function.update (Function.update refs' x (refs' x + 1)) n 1 =
      Function.update (Function.update refs' n (refs' n + 1)) x
        (Function.update refs' n (refs' n + 1) x + 1) := by
    rw [Function.update_of_ne hxn, Function.update_comm hxn, hrn]
  rw [hcomm] at ht
  obtain ⟨v₁, h₁, q₁⟩ := giveBack (by rw [Function.update_of_ne hxn]; exact hheld x)
    (by rw [Function.update_of_ne hxn]; exact hle) ht
  obtain ⟨v₂, h₂, q₂⟩ := giveBack (hheld n) (by omega) h₁
  exact ⟨v₁, v₂, h₁, q₁, h₂, q₂⟩

/-- A request refused because of the old item. -/
theorem Hits.refused (hit : Hits b s s₁ v refs (s.heap.key it) x) (op : NreadOpType)
    (r : StoreItemType) (h : Inv b s v refs) (hle : refs x ≤ 65534) {t : Store} {u : View}
    (ht : Inv b t u (Function.update refs x (refs x + 1))) (hd : SameData s t)
    (hi : u.items = v.items) (hr : r ≠ .stored)
    (hst : r = storeStatus op (some (s.entry x)) (s.heap.getCas it)) :
    ∃ v', Inv b (t.doItemRemove x) v' refs ∧
      StoreEffect op it refs s (t.doItemRemove x) v v' r := by
  obtain ⟨v', h', q⟩ := giveBack (h.held_le x) hle ht
  have hd' := hd.trans q.data
  have hi' : v'.items = v.items := q.items.trans hi
  refine ⟨v', h', .of_refused hd' (fun y hy => by rw [← hi']; exact hy) ?_ hr ?_⟩
  · rw [h.lookup_same h' hd' hi', hit.reads, ← hit.lookup, Function.update_eq_self]
  · rw [hit.reads]; exact hst

/-- A request that puts `it` in the old item's place. -/
theorem Hits.replaced (hit : Hits b s s₁ v refs (s.heap.key it) x) (op : NreadOpType)
    (h : Inv b s v refs) (hle : refs x ≤ 65534) (hpos : 1 ≤ refs it)
    (hu : s.settings.useCas = true) (hop : ¬ op.Joins)
    (hst : storeStatus op (some (s.entry x)) (s.heap.getCas it) = .stored) :
    ∃ v', Inv b ((s₁.doItemReplace x it (s.hv it)).doItemRemove x) v' refs ∧
      StoreEffect op it refs s ((s₁.doItemReplace x it (s.hv it)).doItemRemove x) v v' .stored := by
  have q := hit.quiet
  have hk : s₁.heap.key it = s₁.heap.key x := by rw [q.data.key, hit.key]
  have hhv : s.hv it = s₁.hash (s₁.heap.key x) := by
    rw [Store.hv, q.data.hash, q.data.key, hit.key]
  have hpos' : 1 ≤ Function.update refs x (refs x + 1) it := by
    by_cases e : it = x
    · rw [e, Function.update_self]; omega
    · rw [Function.update_of_ne e]; exact hpos
  obtain ⟨v2, h2, l2, hi2, hl2⟩ := hit.inv.doItemReplace hit.mem
    (by rw [Function.update_self]; omega) hpos' hk (by rw [q.data.settings]; exact hu)
  rw [hhv]
  obtain ⟨v', h', q'⟩ := giveBack (h.held_le x) hle h2
  refine ⟨v', h', .of_stored hop ?_ (fun y hy => ?_) (fun y hy => ?_) ?_ ?_ ?_⟩
  · exact (q.data.globals.trans l2.globals).trans q'.data.globals
  · exact ((q.data.sameItem y).trans (l2.same y hy)).trans (q'.data.sameItem y)
  · rw [q'.items, hi2] at hy
    exact (List.mem_cons.mp hy).imp (fun e => e) List.mem_of_mem_erase
  · rw [h2.lookup_same h' q'.data q'.items, hl2, h.lookup_same hit.inv q.data q.items,
      (q.data.sameItem it).entry, q.data.casId, q.data.key, hit.key]
  · rw [q'.data.casId, l2.casId, q.data.casId]
  · rw [hit.reads]; exact hst

/-- There was no room for the joined item. -/
theorem Hits.joinFailed (hit : Hits b s s₁ v refs (s.heap.key it) x) (h : Inv b s v refs)
    {refs' : Ptr → ℕ} (hge : ∀ y, refs y ≤ refs' y) (hle : refs' x ≤ 65534) (hop : op.Joins)
    (hst : storeStatus op (some (s.entry x)) (s.heap.getCas it) = .stored) {t : Store} {u : View}
    (ht : Inv b t u (Function.update refs' x (refs' x + 1))) (p : Shrinks (s.hv it) s₁ t v u) :
    ∃ v', Inv b (t.doItemRemove x) v' refs' ∧
      StoreEffect op it refs s (t.doItemRemove x) v v' .notStored := by
  have q := hit.quiet
  obtain ⟨v', h', q'⟩ := giveBack ((h.held_le x).trans (hge x)) hle ht
  have hd := (q.data.trans p.data).trans q'.data
  have hlk : ∀ k, (t.doItemRemove x).lookup k = s.lookup k ∨
      (t.doItemRemove x).lookup k = none ∧ s.hash k ≠ s.hv it := fun k => by
    rw [ht.lookup_same h' q'.data q'.items, ← h.lookup_same hit.inv q.data q.items, ← q.data.hash]
    exact hit.inv.lookup_shrinks ht p k
  have hsub : ∀ y ∈ v'.items, y ∈ v.items := fun y hy => p.sub y (by rw [← q'.items]; exact hy)
  refine ⟨v', h', hd.globals, .inr ⟨hop, by rw [hit.reads]; exact hst, rfl⟩, fun _ => ?_,
    fun e => (by cases e), hd.casId,
    fun k _ => (hlk k).imp (fun e => e) fun e => ⟨e.1, hop, by rw [hit.reads]; exact hst⟩,
    fun y _ _ => hd.sameItem y, fun y _ _ hn hy => hn (hsub y hy)⟩
  rw [hit.reads, ← hit.lookup]
  exact (hlk _).resolve_right fun e => e.2 rfl

/-- The new item `n` is neither the old one nor the client's, and those two are as they were. -/
structure Apart (s t : Store) (u : View) (refs refs' : Ptr → ℕ) (it x n : Ptr) : Prop where
  old : x ≠ n
  own : it ≠ n
  unheld : refs' n = 0
  mem : x ∈ u.items
  alloc : ∀ y, 1 ≤ refs y → u.Alloc y
  sameOld : s.heap.SameItem t.heap x
  sameOwn : s.heap.SameItem t.heap it

theorem Hits.apart (hit : Hits b s s₁ v refs (s.heap.key it) x) {refs' : Ptr → ℕ}
    (hge : ∀ y, refs y ≤ refs' y) (hpos : 1 ≤ refs it) {t : Store} {u : View} {n : Ptr}
    (ht : Inv b t u (Function.update (Function.update refs' x (refs' x + 1)) n 1))
    (md : Made (s.hv it) s₁ t v u n) (hn : Function.update refs' x (refs' x + 1) n = 0) :
    Apart s t u refs refs' it x n := by
  have q := hit.quiet
  have hxn : x ≠ n := by rintro rfl; rw [Function.update_self] at hn; omega
  have hrn : refs' n = 0 := by rwa [Function.update_of_ne hxn.symm] at hn
  have hin : it ≠ n := by
    rintro rfl
    have := hge it
    omega
  have hxu : x ∈ u.items := by
    by_contra hx
    refine md.lost x hit.mem hx ?_
    rw [q.data.hv, Store.hv, hit.key]; rfl
  have hau : ∀ y, 1 ≤ refs y → u.Alloc y := fun y hy => by
    refine ht.alloc_of_refs ?_
    by_cases e : y = n
    · rw [e, Function.update_self]
    · rw [Function.update_of_ne e]
      by_cases e' : y = x
      · rw [e', Function.update_self]; omega
      · rw [Function.update_of_ne e']; exact hy.trans (hge y)
  exact ⟨hxn, hin, hrn, hxu, hau, (q.data.sameItem x).trans (md.same x hxn (ht.items_alloc x hxu)),
    (q.data.sameItem it).trans (md.same it hin (hau it hpos))⟩

/-- What the joined item `n` carries. -/
structure Joined (op : NreadOpType) (s w : Store) (it x n : Ptr) : Prop where
  key : w.heap.key n = s.heap.key it
  nbytes : w.heap.nbytes n = s.heap.nbytes it + s.heap.nbytes x - 2
  bytes : w.heap.bytes n = joinValue op (s.heap.bytes x) (s.heap.bytes it)
  suffix : w.heap.suffix n = itemSuffix (Int32.ofInt (strtol (s.heap.suffix x)))
    (s.heap.nbytes it + s.heap.nbytes x - 2)
  exptime : w.heap.exptime n = s.heap.exptime x

theorem Hits.joinData (hit : Hits b s s₁ v refs (s.heap.key it) x) (h : Inv b s v refs)
    (hpos : 1 ≤ refs it) (hop : op.Joins) {t : Store} {u : View} {refs' : Ptr → ℕ} {n : Ptr}
    (ap : Apart s t u refs refs' it x n)
    (hd : Header t n (s₁.heap.key it) (Int32.ofInt (strtol (s₁.heap.suffix x))) (s₁.heap.exptime x)
      (s₁.heap.nbytes it + s₁.heap.nbytes x - 2)) :
    Joined op s (t.joinData op it x n) it x n := by
  have q := hit.quiet
  obtain ⟨c, hc⟩ := h.items_alloc x hit.mem
  obtain ⟨c', hc'⟩ := h.alloc_of_refs hpos
  have sx := ap.sameOld
  have si := ap.sameOwn
  have hbx : t.heap.bytes x = s.heap.bytes x := by simp only [Heap.bytes, sx.nbytes, sx.data]
  have hbi : t.heap.bytes it = s.heap.bytes it := by simp only [Heap.bytes, si.nbytes, si.data]
  have hnb : t.heap.nbytes n = s.heap.nbytes it + s.heap.nbytes x - 2 := by
    rw [hd.nbytes, q.data.nbytes]
  refine ⟨hd.key.trans (by rw [q.data.key]), hnb, ?_, hd.suffix.trans (by
    rw [q.data.suffix, q.data.nbytes]), hd.exptime.trans (by rw [q.data.exptime])⟩
  rw [joinData_bytes t hop it x n ?_ ?_ ?_, hbx, hbi]
  · rw [hnb, si.nbytes, sx.nbytes]
  · rw [si.nbytes]; exact (h.alloc_ok c' it hc').nbytes
  · rw [sx.nbytes]; exact (h.alloc_ok c x hc).nbytes

/-- The joined item `n` takes the old item's place. -/
theorem Hits.joined (hit : Hits b s s₁ v refs (s.heap.key it) x) (h : Inv b s v refs)
    {refs' : Ptr → ℕ} (hge : ∀ y, refs y ≤ refs' y) (hle : refs' x ≤ 65534) (hpos : 1 ≤ refs it)
    (hu : s.settings.useCas = true) (hop : op.Joins)
    (hst : storeStatus op (some (s.entry x)) (s.heap.getCas it) = .stored) {t : Store} {u : View}
    {n : Ptr} (ht : Inv b t u (Function.update (Function.update refs' x (refs' x + 1)) n 1))
    (md : Made (s.hv it) s₁ t v u n) (hn : Function.update refs' x (refs' x + 1) n = 0)
    (hd : Header t n (s₁.heap.key it) (Int32.ofInt (strtol (s₁.heap.suffix x))) (s₁.heap.exptime x)
      (s₁.heap.nbytes it + s₁.heap.nbytes x - 2)) :
    ∃ v', Inv b ((((t.joinData op it x n).doItemReplace x n (s.hv it)).doItemRemove x).doItemRemove n)
        v' refs' ∧
      StoreEffect op it refs s
        ((((t.joinData op it x n).doItemReplace x n (s.hv it)).doItemRemove x).doItemRemove n) v v'
        .stored := by
  have q := hit.quiet
  have ap := hit.apart hge hpos ht md hn
  have jd := hit.joinData h hpos hop ap hd
  obtain ⟨hxn, -, hrn, hxu, hau, sx, -⟩ := ap
  -- the value is written
  obtain ⟨w, hw⟩ : ∃ w, w = t.joinData op it x n := ⟨_, rfl⟩
  rw [← hw] at jd
  have hiw : Inv b w u (Function.update (Function.update refs' x (refs' x + 1)) n 1) := by
    rw [hw]; exact ht.setData n _
  have sw : ∀ y, y ≠ n → t.heap.SameItem w.heap y := fun y hy => by
    rw [hw]; exact ⟨rfl, rfl, rfl, rfl, rfl, Function.update_of_ne hy _ _, rfl⟩
  have hwg : SameGlobals t w := by rw [hw]; exact ⟨rfl, rfl, rfl, rfl⟩
  have hwc : w.casId = t.casId := by rw [hw]; rfl
  have hkx : w.heap.key x = s.heap.key it := by rw [(sw x hxn).key, sx.key, hit.key]
  have hlw : w.lookup = t.lookup := by
    funext k
    refine ht.lookup_congr hiw (fun y => ?_) fun y hy _ =>
      (sw y (ne_of_mem_of_not_mem hy md.unlinked)).entry
    refine and_congr_right fun hy => ?_
    rw [(sw y (ne_of_mem_of_not_mem hy md.unlinked)).key]
  have hg := (q.data.globals.trans md.globals).trans hwg
  have hhv : s.hv it = w.hash (w.heap.key x) := by rw [hkx, hg.hash]; rfl
  -- the new item replaces the old one
  obtain ⟨v3, h3, l3, hi3, hl3⟩ := hiw.doItemReplace hxu
    (by rw [Function.update_of_ne hxn, Function.update_self]; omega)
    (by rw [Function.update_self]) (jd.key.trans hkx.symm) (by rw [hg.settings]; exact hu)
  rw [← hhv] at h3 l3 hl3
  rw [← hw]
  -- both are given back
  obtain ⟨v4, v5, h4, q4, h5, q5⟩ := giveBack_both hxn hrn (fun y => (h.held_le y).trans (hge y)) hle h3
  have hne : ∀ y, 1 ≤ refs y → y ≠ n := by
    rintro y hy rfl
    have := hge y
    omega
  have hi5 : v5.items = n :: u.items.erase x := by rw [q5.items, q4.items, hi3]
  have hlk : (((w.doItemReplace x n (s.hv it)).doItemRemove x).doItemRemove n).lookup =
      Function.update t.lookup (s.heap.key it)
        (some { w.entry n with cas := UInt64.ofNat (s.casId + 1) }) := by
    rw [h4.lookup_same h5 q5.data q5.items, h3.lookup_same h4 q4.data q4.items, hl3, hlw, hkx, hwc,
      md.casId, q.data.casId]
  refine ⟨v5, h5, ?_, .inl (by rw [hit.reads]; exact hst.symm), fun hr => absurd rfl hr, fun _ => ?_,
    ?_, fun k hk => ?_, fun y hy _ => ?_, fun y hy _ hn hy' => ?_⟩
  · exact ((hg.trans l3.globals).trans q4.data.globals).trans q5.data.globals
  · refine ⟨n, ?_⟩
    rw [hlk, Function.update_self, hit.reads]
    rcases hop with rfl | rfl <;>
      simp only [storeEntry, Store.entry, jd.bytes, jd.suffix, jd.exptime, strtol_itemSuffix]
  · rw [if_pos rfl, q5.data.casId, q4.data.casId, l3.casId, hwc, md.casId, q.data.casId]
  · rw [hlk, Function.update_of_ne hk, ← h.lookup_same hit.inv q.data q.items]
    exact (hit.inv.lookup_made ht md k).imp (fun e => e) fun e =>
      ⟨e.1, hop, by rw [hit.reads]; exact hst⟩
  · exact (((((q.data.sameItem y).trans (md.same y (hne y hy) (hau y hy))).trans
      (sw y (hne y hy))).trans (l3.same y (hne y hy))).trans (q4.data.sameItem y)).trans
      (q5.data.sameItem y)
  · rw [hi5] at hy'
    rcases List.mem_cons.mp hy' with e | hm
    · exact hne y hy e
    · exact hn (md.sub y (List.mem_of_mem_erase hm))

theorem storeStatus_joins (hop : op.Joins) (e : Entry Ptr) (c : UInt64) :
    storeStatus op (some e) c = if c ≠ 0 ∧ c ≠ e.cas then .existing else .stored := by
  rcases hop with rfl | rfl <;> rfl

/-- What the walks of `DoItemAlloc` keep, set apart from the reference to the old item. -/
theorem leaked_split {R : Ptr → ℕ} {curHv : UInt32} {n : ℕ} (hx : s.hv x = curHv)
    (lk : Leaked s curHv n (Function.update refs x (refs x + 1)) R) :
    ∃ refs', R = Function.update refs' x (refs' x + 1) ∧ Leaked s curHv n refs refs' ∧
      refs' x = refs x := by
  have hR : R x = refs x + 1 := by rw [lk.own x hx, Function.update_self]
  refine ⟨Function.update R x (refs x), ?_, ⟨fun y => ?_, fun y => ?_, fun y hy => ?_⟩,
    Function.update_self _ _ _⟩
  · rw [Function.update_self, Function.update_idem, ← hR, Function.update_eq_self]
  · by_cases e : y = x
    · rw [e, Function.update_self]
    · have := lk.ge y
      rwa [Function.update_of_ne e] at this ⊢
  · by_cases e : y = x
    · rw [e, Function.update_self]; exact Nat.le_add_right _ _
    · have := lk.le y
      rwa [Function.update_of_ne e] at this ⊢
  · by_cases e : y = x
    · rw [e, Function.update_self]
    · have := lk.own y hy
      rwa [Function.update_of_ne e] at this ⊢

/-- The allocation of a joined item, with the old item in hand. -/
theorem Hits.alloc (hit : Hits b s s₁ v refs (s.heap.key it) x) (h : Inv b s v refs)
    (hle : ∀ y, refs y + s.slack 5 ≤ 65534) (hpos : 1 ≤ refs it)
    (hrep : s.settings.tailRepairTime = 0) :
    ∃ refs', Leaked s (s.hv it) 5 refs refs' ∧ refs' x ≤ 65534 ∧
      ((∃ t u, s₁.doItemAlloc (s₁.heap.key it) (Int32.ofInt (strtol (s₁.heap.suffix x)))
          (s₁.heap.exptime x) (s₁.heap.nbytes it + s₁.heap.nbytes x - 2) (s.hv it) = (none, t) ∧
        Inv b t u (Function.update refs' x (refs' x + 1)) ∧ Shrinks (s.hv it) s₁ t v u) ∨
      ∃ n t u, s₁.doItemAlloc (s₁.heap.key it) (Int32.ofInt (strtol (s₁.heap.suffix x)))
          (s₁.heap.exptime x) (s₁.heap.nbytes it + s₁.heap.nbytes x - 2) (s.hv it) = (some n, t) ∧
        Inv b t u (Function.update (Function.update refs' x (refs' x + 1)) n 1) ∧
        Made (s.hv it) s₁ t v u n ∧ Function.update refs' x (refs' x + 1) n = 0 ∧
        Header t n (s₁.heap.key it) (Int32.ofInt (strtol (s₁.heap.suffix x))) (s₁.heap.exptime x)
          (s₁.heap.nbytes it + s₁.heap.nbytes x - 2)) := by
  have q := hit.quiet
  obtain ⟨c, hcx⟩ := h.items_alloc x hit.mem
  obtain ⟨c', hci⟩ := h.alloc_of_refs hpos
  have hnx := (h.alloc_ok c x hcx).nbytes
  have hni := (h.alloc_ok c' it hci).nbytes
  have hn : 2 ≤ s₁.heap.nbytes it + s₁.heap.nbytes x - 2 := by rw [q.data.nbytes]; omega
  have hhx : s₁.hv x = s.hv it := by rw [q.data.hv, Store.hv, hit.key]; rfl
  have hslack : s₁.slack 5 = s.slack 5 := by simp only [Store.slack, q.data.settings]
  have hle' : ∀ y, s₁.hv y ≠ s.hv it →
      Function.update refs x (refs x + 1) y + s₁.slack 5 ≤ 65534 := by
    intro y hy
    have hne : y ≠ x := by rintro rfl; exact hy hhx
    rw [Function.update_of_ne hne, hslack]
    exact hle y
  obtain ⟨R, lkR, hr⟩ := hit.inv.doItemAlloc (by rw [q.data.settings]; exact hrep)
    (s₁.heap.key it) (Int32.ofInt (strtol (s₁.heap.suffix x))) (s₁.heap.exptime x) hn (s.hv it) hle'
  obtain ⟨refs', rfl, lk, hx'⟩ := leaked_split hhx lkR
  refine ⟨refs', lk.congr q.data, ?_, hr⟩
  have := hle x
  omega

/-- **`APPEND` and `PREPEND`** with an old item. -/
theorem Hits.storeJoined (hit : Hits b s s₁ v refs (s.heap.key it) x) (h : Inv b s v refs)
    (hle : ∀ y, refs y + s.slack 5 ≤ 65534) (hpos : 1 ≤ refs it) (hu : s.settings.useCas = true)
    (hrep : s.settings.tailRepairTime = 0) (hop : op.Joins) :
    ∃ r s' v' refs', s₁.storeJoined (s.hv it) it x op = (r, s') ∧ Inv b s' v' refs' ∧
      Leaked s (s.hv it) 5 refs refs' ∧ StoreEffect op it refs s s' v v' r := by
  have q := hit.quiet
  have hci := congrArg Entry.cas (q.data.sameItem it).entry
  have hcx := congrArg Entry.cas (q.data.sameItem x).entry
  have hst := storeStatus_joins hop (s.entry x) (s.heap.getCas it)
  have hlex : refs x ≤ 65534 := by have := hle x; omega
  unfold Store.storeJoined
  rw [show s₁.heap.getCas it = s.heap.getCas it from hci,
    show s₁.heap.getCas x = (s.entry x).cas from hcx]
  split_ifs with hc
  · rw [if_pos hc] at hst
    obtain ⟨v', h', ef⟩ := hit.refused op .existing h hlex hit.inv q.data rfl (by decide) hst.symm
    exact ⟨_, _, v', refs, rfl, h', .refl _, ef⟩
  · rw [if_neg hc] at hst
    obtain ⟨refs', lk, hlex', ⟨t, u, he, ht, p⟩ | ⟨n, t, u, he, ht, md, hr, hd⟩⟩ :=
      hit.alloc h hle hpos hrep
    · simp only [he]
      obtain ⟨v', h', ef⟩ := hit.joinFailed h lk.ge hlex' hop hst ht p
      exact ⟨_, _, v', refs', rfl, h', lk, ef⟩
    · simp only [he]
      obtain ⟨v', h', ef⟩ := hit.joined h lk.ge hlex' hpos hu hop hst ht md hr hd
      exact ⟨_, _, v', refs', rfl, h', lk, ef⟩

end

/-! ## The paths without one -/

theorem Misses.refused {s₁ : Store} {v₁ : View} {it : Ptr} {op : NreadOpType} {r : StoreItemType}
    (ms : Misses b s s₁ v v₁ refs (s.heap.key it)) (hr : r ≠ .stored)
    (hst : r = storeStatus op (none : Option (Entry Ptr)) (s.heap.getCas it)) :
    StoreEffect op it refs s s₁ v v₁ r := by
  refine .of_refused ms.data ms.sub ?_ hr ?_
  · rw [ms.lookup, ms.reads]
  · rw [ms.reads]; exact hst

theorem Misses.linked {s₁ : Store} {v₁ : View} {it : Ptr}
    (ms : Misses b s s₁ v v₁ refs (s.heap.key it)) (op : NreadOpType) (hpos : 1 ≤ refs it)
    (hu : s.settings.useCas = true) (hop : ¬ op.Joins)
    (hst : storeStatus op (none : Option (Entry Ptr)) (s.heap.getCas it) = .stored) :
    ∃ v', Inv b (s₁.doItemLink it (s.hv it)) v' refs ∧
      StoreEffect op it refs s (s₁.doItemLink it (s.hv it)) v v' .stored := by
  have hhv : s.hv it = s₁.hash (s₁.heap.key it) := by rw [ms.data.hash, ms.data.key]; rfl
  obtain ⟨v', h', l, hi, hl⟩ := ms.inv.link (ms.inv.alloc_of_refs hpos)
    (fun y hy e => ms.keys y hy (by rw [e, ms.data.key]))
    (by rw [ms.data.settings]; exact hu)
  rw [hhv]
  refine ⟨v', h', .of_stored hop (ms.data.globals.trans l.globals)
    (fun y hy => (ms.data.sameItem y).trans (l.same y hy)) (fun y hy => ?_) ?_ ?_ ?_⟩
  · rw [hi] at hy
    exact (List.mem_cons.mp hy).imp (fun e => e) (ms.sub y)
  · rw [hl, ms.lookup, (ms.data.sameItem it).entry, ms.data.casId, ms.data.key,
      Function.update_idem]
  · rw [l.casId, ms.data.casId]
  · rw [ms.reads]; exact hst

/-- **`DoStoreItem`** keeps the invariant and the references, and does what the timed map says. -/
theorem doStoreItem (h : Inv b s v refs) (hle : ∀ y, refs y + s.slack 5 ≤ 65534) {it : Ptr}
    (hpos : 1 ≤ refs it) (hu : s.settings.useCas = true) (hrep : s.settings.tailRepairTime = 0)
    (op : NreadOpType) :
    ∃ r s' v' refs', s.doStoreItem (s.hv it) it op = (r, s') ∧ Inv b s' v' refs' ∧
      Leaked s (s.hv it) 5 refs refs' ∧ StoreEffect op it refs s s' v v' r := by
  have hle0 : ∀ y, refs y ≤ 65534 := fun y => by have := hle y; omega
  unfold Store.doStoreItem
  rcases h.get_cases (s.heap.key it) fun x _ _ => hle0 x with
    ⟨s₁, v₁, he, ms⟩ | ⟨x, s₁, he, hit⟩
  · rw [show s.hv it = s.hash (s.heap.key it) from rfl, he]
    cases op with
    | add =>
      obtain ⟨v', h', ef⟩ := ms.linked .add hpos hu (by decide) rfl
      exact ⟨_, _, v', refs, rfl, h', .refl _, ef⟩
    | set =>
      obtain ⟨v', h', ef⟩ := ms.linked .set hpos hu (by decide) rfl
      exact ⟨_, _, v', refs, rfl, h', .refl _, ef⟩
    | replace | append | prepend | cas =>
      exact ⟨_, _, v₁, refs, rfl, ms.inv, .refl _, ms.refused (by decide) rfl⟩
  · rw [show s.hv it = s.hash (s.heap.key it) from rfl, he]
    have hr := hle0 x
    cases op with
    | add =>
      obtain ⟨v2, h2, mv⟩ := hit.inv.doItemUpdate (h.alloc_isChunk (h.items_alloc x hit.mem))
      obtain ⟨v', h', ef⟩ := hit.refused .add .notStored h hr h2 (hit.quiet.data.trans mv.data)
        mv.items (by decide) rfl
      exact ⟨_, _, v', refs, rfl, h', .refl _, ef⟩
    | set =>
      obtain ⟨v', h', ef⟩ := hit.replaced .set h hr hpos hu (by decide) rfl
      exact ⟨_, _, v', refs, rfl, h', .refl _, ef⟩
    | replace =>
      obtain ⟨v', h', ef⟩ := hit.replaced .replace h hr hpos hu (by decide) rfl
      exact ⟨_, _, v', refs, rfl, h', .refl _, ef⟩
    | append => exact hit.storeJoined h hle hpos hu hrep (.inl rfl)
    | prepend => exact hit.storeJoined h hle hpos hu hrep (.inr rfl)
    | cas =>
      have hci := congrArg Entry.cas (hit.quiet.data.sameItem it).entry
      have hcx := congrArg Entry.cas (hit.quiet.data.sameItem x).entry
      simp only
      rw [show s₁.heap.getCas it = s.heap.getCas it from hci,
        show s₁.heap.getCas x = (s.entry x).cas from hcx]
      split_ifs with hc
      · obtain ⟨v', h', ef⟩ := hit.replaced .cas h hr hpos hu (by decide) (if_pos hc)
        exact ⟨_, _, v', refs, rfl, h', .refl _, ef⟩
      · obtain ⟨v', h', ef⟩ := hit.refused .cas .existing h hr hit.inv hit.quiet.data rfl
          (by decide) (if_neg hc).symm
        exact ⟨_, _, v', refs, rfl, h', .refl _, ef⟩

end Inv

end Mdb
