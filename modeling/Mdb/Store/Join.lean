import Mdb.Store.Bytes
import Mdb.Store.Layout

/-!
# Append and prepend

`DoStoreItem` makes an item of its own for the joined value, with two `memcpy` calls of which the
second overwrites the two end bytes that the first has copied.

* `joinBody`: the calls on the bytes of the new item's chunk; `joinBody_read`, `joinBody_outside`;
* `Inv.Hits.joined_found`: the joined item is the one that is linked, with or without CAS ids;
* **`append_concatenates`**.
-/

namespace Mdb

theorem Heap.length_bytes (h : Heap) (x : Ptr) : (h.bytes x).length = h.nbytes x := by
  rw [Heap.bytes, List.length_map, List.length_range]

/-! ## The bytes of the chunk -/

/-- The `memcpy` calls into a chunk with the header `l` that holds `body` from `data` on. -/
def joinBody (l : Layout) (op : NreadOpType) (h : Heap) (it oldIt : Ptr) (body : ℕ → UInt8) :
    ℕ → UInt8 :=
  if op = .append then
    memcpy (memcpy body l.dataAt (h.data oldIt) (h.nbytes oldIt))
      (l.dataAt + h.nbytes oldIt - 2) (h.data it) (h.nbytes it)
  else
    memcpy (memcpy body l.dataAt (h.data it) (h.nbytes it))
      (l.dataAt + h.nbytes it - 2) (h.data oldIt) (h.nbytes oldIt)

section

variable {l : Layout} {op : NreadOpType} {h : Heap} {it oldIt : Ptr} {body : ℕ → UInt8}
  (hl : l.nbytes = h.nbytes it + h.nbytes oldIt - 2) (h1 : 2 ≤ h.nbytes it)
  (h2 : 2 ≤ h.nbytes oldIt)

include hl h1 h2

/-- The data region is written as a whole. -/
theorem joinBody_read (hop : op.Joins) :
    Bytes.read (joinBody l op h it oldIt body) l.dataAt l.nbytes =
      joinValue op (h.bytes oldIt) (h.bytes it) := by
  simp only [joinValue, Inv.take_bytes]
  rw [hl, joinBody, Inv.bytes_eq_read, Inv.bytes_eq_read]
  rcases hop with rfl | rfl
  · rw [if_pos rfl, if_pos rfl, show l.dataAt + h.nbytes oldIt - 2 =
      l.dataAt + (h.nbytes oldIt - 2) by omega,
      show h.nbytes it + h.nbytes oldIt - 2 = h.nbytes oldIt - 2 + h.nbytes it by omega]
    exact Bytes.read_tile (Nat.sub_le _ _)
  · rw [if_neg (by decide), if_neg (by decide), show l.dataAt + h.nbytes it - 2 =
      l.dataAt + (h.nbytes it - 2) by omega,
      show h.nbytes it + h.nbytes oldIt - 2 = h.nbytes it - 2 + h.nbytes oldIt by omega]
    exact Bytes.read_tile (Nat.sub_le _ _)

/-- Nothing else is written. -/
theorem joinBody_outside {i : ℕ} (hi : i < l.dataAt ∨ l.dataAt + l.nbytes ≤ i) :
    joinBody l op h it oldIt body i = body i := by
  unfold joinBody
  split_ifs
  · rw [show l.dataAt + h.nbytes oldIt - 2 = l.dataAt + (h.nbytes oldIt - 2) by omega]
    exact Bytes.tile_outside (by omega) (by omega)
  · rw [show l.dataAt + h.nbytes it - 2 = l.dataAt + (h.nbytes it - 2) by omega]
    exact Bytes.tile_outside (by omega) (by omega)

end

/-! ## The joined item is linked -/

/-- No item's key, value, expiry or suffix was written. -/
structure SameValues (s s' : Store) : Prop where
  hash : s'.hash = s.hash
  key : s'.heap.key = s.heap.key
  nbytes : s'.heap.nbytes = s.heap.nbytes
  data : s'.heap.data = s.heap.data
  exptime : s'.heap.exptime = s.heap.exptime
  suffix : s'.heap.suffix = s.heap.suffix

theorem SameData.values {s s' : Store} (h : SameData s s') : SameValues s s' :=
  ⟨h.hash, h.key, h.nbytes, h.data, h.exptime, h.suffix⟩

theorem SameValues.trans {s s' s'' : Store} (h : SameValues s s') (h' : SameValues s' s'') :
    SameValues s s'' :=
  ⟨h'.hash.trans h.hash, h'.key.trans h.key, h'.nbytes.trans h.nbytes, h'.data.trans h.data,
    h'.exptime.trans h.exptime, h'.suffix.trans h.suffix⟩

theorem doItemLink_values (s : Store) (x : Ptr) (hv : UInt32) : SameValues s (s.doItemLink x hv) := by
  obtain ⟨c, n, a, e, st, hs⟩ := Inv.doItemLink_eq s x hv
  rw [hs]
  exact ⟨rfl, rfl, rfl, rfl, rfl, rfl⟩

namespace Inv

variable {b : Base} {s s₁ t w : Store} {v u : View} {refs refs' : Ptr → ℕ} {op : NreadOpType}
  {it x n : Ptr}

theorem Joined.values (h : Joined op s t it x n) (hw : SameValues t w) : Joined op s w it x n where
  key := by rw [hw.key, h.key]
  nbytes := by rw [hw.nbytes, h.nbytes]
  bytes := by rw [Heap.bytes, hw.nbytes, hw.data, ← h.bytes]; rfl
  suffix := by rw [hw.suffix, h.suffix]
  exptime := by rw [hw.exptime, h.exptime]

/-- `DoItemReplace`, with or without CAS ids. -/
theorem doItemReplace_values (h : Inv b s v refs) (hx : x ∈ v.items) (hle : refs x ≤ 65535)
    (hn : 1 ≤ refs n) (hk : s.heap.key n = s.heap.key x) :
    ∃ v', Inv b (s.doItemReplace x n (s.hash (s.heap.key x))) v' refs ∧ n ∈ v'.items ∧
      SameValues s (s.doItemReplace x n (s.hash (s.heap.key x))) := by
  obtain ⟨v1, h1, d1⟩ := h.doItemUnlink hx hle
  obtain ⟨t, ht⟩ : ∃ t, t = s.doItemUnlink x (s.hash (s.heap.key x)) := ⟨_, rfl⟩
  rw [← ht] at h1 d1
  have hkt : t.hash (t.heap.key n) = s.hash (s.heap.key x) := by rw [d1.data.hash, d1.data.key, hk]
  have hnew : ∀ y ∈ v1.items, t.heap.key y ≠ t.heap.key n := by
    intro y hy e
    rw [d1.items, h.table.holds.nodup.mem_erase_iff] at hy
    rw [d1.data.key, hk] at e
    exact hy.1 (h.table.keys y hy.2 x hx e)
  have h' := h1.doItemLink (h1.alloc_of_refs hn) hnew
  have he : s.doItemReplace x n (s.hash (s.heap.key x)) = t.doItemLink n (t.hash (t.heap.key n)) := by
    rw [hkt, ht]; rfl
  rw [he]
  exact ⟨_, h', List.mem_cons_self, d1.data.values.trans (doItemLink_values t n _)⟩

/-- **The joined item is found** under the key, and is linked. -/
theorem Hits.joined_found (hit : Hits b s s₁ v refs (s.heap.key it) x) (h : Inv b s v refs)
    (hge : ∀ y, refs y ≤ refs' y) (hle : refs' x ≤ 65534) (hpos : 1 ≤ refs it) (hop : op.Joins)
    (ht : Inv b t u (Function.update (Function.update refs' x (refs' x + 1)) n 1))
    (md : Made (s.hv it) s₁ t v u n) (hn : Function.update refs' x (refs' x + 1) n = 0)
    (hd : Header t n (s₁.heap.key it) (Int32.ofInt (strtol (s₁.heap.suffix x))) (s₁.heap.exptime x)
      (s₁.heap.nbytes it + s₁.heap.nbytes x - 2)) {s' : Store}
    (hs' : s' = (((t.joinData op it x n).doItemReplace x n (s.hv it)).doItemRemove x).doItemRemove n) :
    s'.assocFind (s.heap.key it) (s.hv it) = some n ∧ (s'.heap.itFlags n).linked = true ∧
      Joined op s s' it x n := by
  have ap := hit.apart hge hpos ht md hn
  have jd := hit.joinData h hpos hop ap hd
  obtain ⟨hxn, -, hrn, hxu, -, sx, -⟩ := ap
  obtain ⟨w, hw⟩ : ∃ w, w = t.joinData op it x n := ⟨_, rfl⟩
  rw [← hw] at jd hs'
  have hiw : Inv b w u (Function.update (Function.update refs' x (refs' x + 1)) n 1) := by
    rw [hw]; exact ht.setData n _
  have hkx : w.heap.key x = s.heap.key it := by
    rw [show w.heap.key x = t.heap.key x by rw [hw]; rfl, sx.key, hit.key]
  have hash : w.hash = s.hash := by
    rw [show w.hash = t.hash by rw [hw]; rfl, md.globals.hash, hit.quiet.data.hash]
  have hhv : s.hv it = w.hash (w.heap.key x) := by rw [hkx, hash]; rfl
  -- the new item replaces the old one
  obtain ⟨v3, h3, hm3, l3⟩ := hiw.doItemReplace_values hxu
    (by rw [Function.update_of_ne hxn, Function.update_self]; omega)
    (by rw [Function.update_self]) (jd.key.trans hkx.symm)
  rw [← hhv] at h3 l3
  -- both are given back
  obtain ⟨v4, v5, h4, q4, h5, q5⟩ := giveBack_both hxn hrn (fun y => (h.held_le y).trans (hge y)) hle h3
  rw [← hs'] at h5 q5
  have vals := (l3.trans q4.data.values).trans q5.data.values
  have hm5 : n ∈ v5.items := by rw [q5.items, q4.items]; exact hm3
  have jd' := jd.values vals
  refine ⟨?_, h5.linked_of_mem hm5, jd'⟩
  rw [Store.hv, ← hash, ← vals.hash]
  exact h5.assocFind_iff.mpr ⟨hm5, jd'.key⟩

/-- What `DoStoreItem` has done if it has stored a joined value. -/
theorem stored_joined (h : Inv b s v refs) (hle : ∀ y, refs y + s.slack 5 ≤ 65534)
    (hpos : 1 ≤ refs it) (hrep : s.settings.tailRepairTime = 0) (hop : op.Joins)
    (hx : s.assocFind (s.heap.key it) (s.hv it) = some x) {s' : Store}
    (hr : s.doStoreItem (s.hv it) it op = (.stored, s')) :
    ∃ n, s'.assocFind (s.heap.key it) (s.hv it) = some n ∧ (s'.heap.itFlags n).linked = true ∧
      Joined op s s' it x n := by
  have hle0 : ∀ y, refs y ≤ 65534 := fun y => by have := hle y; omega
  rcases h.get_cases (s.heap.key it) fun y _ _ => hle0 y with ⟨s₁, v₁, he, -⟩ | ⟨y, s₁, he, hit⟩
  · -- without an old item nothing is stored
    unfold Store.doStoreItem at hr
    rw [show s.hv it = s.hash (s.heap.key it) from rfl, he] at hr
    rcases hop with rfl | rfl <;> cases hr
  · obtain rfl : y = x := by
      have := h.assocFind_iff.mpr ⟨hit.mem, hit.key⟩
      rw [show s.hash (s.heap.key it) = s.hv it from rfl, hx] at this
      exact (Option.some.inj this).symm
    have hj : s₁.storeJoined (s.hv it) it y op = (.stored, s') := by
      unfold Store.doStoreItem at hr
      rw [show s.hv it = s.hash (s.heap.key it) from rfl, he] at hr
      rcases hop with rfl | rfl <;> exact hr
    unfold Store.storeJoined at hj
    split_ifs at hj
    · cases hj
    · obtain ⟨refs', lk, hlex, ⟨t, u, hal, -⟩ | ⟨n, t, u, hal, ht, md, hn, hd⟩⟩ :=
        hit.alloc h hle hpos hrep
      · simp only [hal] at hj
        cases hj
      · simp only [hal] at hj
        exact ⟨n, hit.joined_found h lk.ge hlex hpos hop ht md hn hd (congrArg Prod.snd hj).symm⟩

end Inv

/-- The items that were ever handed out. -/
def handedOut (t : List MemEvent) : List Ptr := t.filterMap fun
  | .alloc y => some y
  | .free _ _ => none

theorem IsLive.mem_handedOut {t : List MemEvent} {x : Ptr} (h : IsLive t x) : x ∈ handedOut t := by
  induction t with
  | nil => exact h.elim
  | cons ev t ih =>
    cases ev with
    | alloc y => exact List.mem_cons.mpr (h.imp (fun e => e) ih)
    | free y l => exact ih h.2

namespace World

/-- `Uncrowded`, decidably. -/
def Roomy (w : World) : Prop :=
  ∀ x ∈ handedOut w.store.trace, w.store.heap.refcount x + w.store.slack 5 < 65535

instance (w : World) : Decidable w.Roomy := inferInstanceAs (Decidable (∀ x ∈ _, _))

theorem Roomy.uncrowded {w : World} (h : w.Roomy) : w.Uncrowded := fun x hx => h x hx.mem_handedOut

/-- Operations one after the other, none of which finds a reference count about to wrap. -/
def Calm : World → List LifeOp → Prop
  | w, [] => w.Roomy
  | w, op :: ops => op.Ok w ∧ w.Roomy ∧ Calm (op.exec w) ops

instance instDecidableCalm (ops : List LifeOp) : (w : World) → Decidable (w.Calm ops) :=
  match ops with
  | [] => fun w => inferInstanceAs (Decidable w.Roomy)
  | op :: ops => fun w =>
    have : Decidable (World.Calm (op.exec w) ops) := instDecidableCalm ops _
    inferInstanceAs (Decidable (op.Ok w ∧ w.Roomy ∧ World.Calm (op.exec w) ops))

theorem Alive.live {w : World} {m : Moved} (h : w.Alive m) (ops : List LifeOp)
    (hok : w.Calm ops) : (w.live ops).Alive m ∧ (w.live ops).Uncrowded := by
  induction ops generalizing w with
  | nil => exact ⟨h, hok.uncrowded⟩
  | cons op ops ih => exact ih (LifeOp.alive h hok.1 hok.2.1.uncrowded) hok.2.2

end World

/-- An item is stored under the key `a`, and another one with that key is written. -/
def partsOps : List LifeOp :=
  [.op (.alloc (.byte 97) (-7) 90 3 0), .op (.fill (.chunk 4192) (fun i => [120, 13, 10].getD i 0) 0),
    .link (.chunk 4192), .op (.alloc (.byte 97) 0 0 4 0),
    .op (.fill (.chunk 4096) (fun i => [121, 122, 13, 10].getD i 0) 0)]

def twoParts : World := smallWorld.live partsOps

end Mdb
