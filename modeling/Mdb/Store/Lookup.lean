import Mdb.Store.Alloc
import Mdb.TimedMap

/-!
# What the store has for a key

`s.lookup key` is the entry the table has for `key`, dead or alive; `s.reads key` the entry a
`DoItemGet` returns. What an operation does to the map is what it does to `lookup`.

* `Store.entry`, `Store.lookup`, `Store.reads`;
* `Inv.lookup_congr`, `Inv.lookup_drops`, `Inv.lookup_shrinks`, `Inv.lookup_made`, `Inv.lookup_links`:
  the effects of the operations;
* **`Inv.doItemLink_links`**, **`Inv.doItemReplace`**.
-/

namespace Mdb

namespace Store

variable (s : Store)

/-- What item `it` carries. -/
def entry (it : Ptr) : Entry Ptr :=
  ⟨it, s.heap.bytes it, Int32.ofInt (strtol (s.heap.suffix it)), s.heap.exptime it, s.heap.getCas it⟩

/-- What the table has for `key`. -/
def lookup (key : Key) : Option (Entry Ptr) := (s.assocFind key (s.hash key)).map s.entry

/-- What a reader of `key` gets. -/
def reads (key : Key) : Option (Entry Ptr) :=
  ((s.assocFind key (s.hash key)).filter fun it => ¬ s.isDead it).map s.entry

end Store

theorem Heap.SameItem.entry {s s' : Store} {x : Ptr} (h : s.heap.SameItem s'.heap x) :
    s'.entry x = s.entry x := by
  simp only [Store.entry, Heap.bytes, Heap.getCas, h.nbytes, h.data, h.suffix, h.exptime, h.cas,
    h.casBit]

namespace Inv

variable {b b' : Base} {s s' : Store} {v v' : View} {refs refs' : Ptr → ℕ} {x : Ptr} {k : Key}

theorem lookup_mem (h : Inv b s v refs) (hx : x ∈ v.items) (hk : s.heap.key x = k) :
    s.lookup k = some (s.entry x) := by
  rw [Store.lookup, h.assocFind_iff.mpr ⟨hx, hk⟩]
  rfl

theorem assocFind_none (h : Inv b s v refs) (hk : ∀ x ∈ v.items, s.heap.key x ≠ k) :
    s.assocFind k (s.hash k) = none := by
  rw [Option.eq_none_iff_forall_ne_some]
  intro x hx
  obtain ⟨hx, e⟩ := h.assocFind_iff.mp hx
  exact hk x hx e

theorem lookup_none (h : Inv b s v refs) (hk : ∀ x ∈ v.items, s.heap.key x ≠ k) :
    s.lookup k = none := by
  rw [Store.lookup, h.assocFind_none hk]
  rfl

/-- A key is that of one item, or of none. -/
theorem key_cases (_h : Inv b s v refs) (k : Key) :
    (∃ x ∈ v.items, s.heap.key x = k) ∨ ∀ x ∈ v.items, s.heap.key x ≠ k := by
  by_cases hx : ∃ x ∈ v.items, s.heap.key x = k
  · exact .inl hx
  · exact .inr fun x hm e => hx ⟨x, hm, e⟩

/-- `lookup` is determined by the linked items and what they carry: where two stores have the same of
these for `k`, it is the same. -/
theorem lookup_congr (h : Inv b s v refs) (h' : Inv b' s' v' refs')
    (hk : ∀ x, (x ∈ v'.items ∧ s'.heap.key x = k) ↔ (x ∈ v.items ∧ s.heap.key x = k))
    (he : ∀ x ∈ v.items, s.heap.key x = k → s'.entry x = s.entry x) : s'.lookup k = s.lookup k := by
  rcases h.key_cases k with ⟨x, hx, e⟩ | hn
  · obtain ⟨hx', e'⟩ := (hk x).mpr ⟨hx, e⟩
    rw [h.lookup_mem hx e, h'.lookup_mem hx' e', he x hx e]
  · rw [h.lookup_none hn, h'.lookup_none fun x hx' e' =>
      hn x ((hk x).mp ⟨hx', e'⟩).1 ((hk x).mp ⟨hx', e'⟩).2]

theorem reads_hit (h : Inv b s v refs) (hx : x ∈ v.items) (hk : s.heap.key x = k)
    (hd : ¬ s.isDead x) : s.reads k = some (s.entry x) := by
  rw [Store.reads, h.assocFind_iff.mpr ⟨hx, hk⟩]
  simp [hd]

theorem reads_dead (h : Inv b s v refs) (hx : x ∈ v.items) (hk : s.heap.key x = k)
    (hd : s.isDead x) : s.reads k = none := by
  rw [Store.reads, h.assocFind_iff.mpr ⟨hx, hk⟩]
  simp [hd]

theorem reads_none (h : Inv b s v refs) (hk : ∀ x ∈ v.items, s.heap.key x ≠ k) :
    s.reads k = none := by
  rw [Store.reads, h.assocFind_none hk]
  rfl

/-! ## The effects -/

theorem lookup_same (h : Inv b s v refs) (h' : Inv b' s' v' refs') (hd : SameData s s')
    (hi : v'.items = v.items) : s'.lookup = s.lookup := by
  funext k
  exact h.lookup_congr h' (fun x => by rw [hi, hd.key]) fun x _ _ => (hd.sameItem x).entry

theorem lookup_drops (h : Inv b s v refs) (h' : Inv b' s' v' refs') (d : Drops s s' v v' x)
    (hx : x ∈ v.items) : s'.lookup = Function.update s.lookup (s.heap.key x) none := by
  have hmem : ∀ y, y ∈ v'.items ↔ y ≠ x ∧ y ∈ v.items := fun y => by
    rw [d.items, h.table.holds.nodup.mem_erase_iff]
  funext k
  by_cases e : k = s.heap.key x
  · subst e
    rw [Function.update_self]
    refine h'.lookup_none fun y hy e => ?_
    rw [d.data.key] at e
    obtain ⟨hne, hy⟩ := (hmem y).mp hy
    exact hne (h.table.keys y hy x hx e)
  · rw [Function.update_of_ne e]
    refine h.lookup_congr h' (fun y => ?_) fun y _ _ => (d.data.sameItem y).entry
    rw [hmem, d.data.key]
    exact ⟨fun ⟨⟨_, hy⟩, hk⟩ => ⟨hy, hk⟩, fun ⟨hy, hk⟩ => ⟨⟨fun e' => e (by rw [← hk, e']), hy⟩, hk⟩⟩

/-- Where items may be gone, `lookup` is as before, or empty for a key of another hash value. -/
theorem lookup_lost (h : Inv b s v refs) (h' : Inv b' s' v' refs') {curHv : UInt32}
    (hs : ∀ x ∈ v'.items, s.heap.SameItem s'.heap x) (sub : ∀ x ∈ v'.items, x ∈ v.items)
    (lost : ∀ x ∈ v.items, x ∉ v'.items → s.hv x ≠ curHv) (k : Key) :
    s'.lookup k = s.lookup k ∨ s'.lookup k = none ∧ s.hash k ≠ curHv := by
  rcases h.key_cases k with ⟨x, hx, e⟩ | hn
  · by_cases hx' : x ∈ v'.items
    · refine .inl ?_
      rw [h.lookup_mem hx e, h'.lookup_mem hx' (by rw [(hs x hx').key, e]), (hs x hx').entry]
    · refine .inr ⟨h'.lookup_none fun y hy e' => ?_, by rw [← e]; exact lost x hx hx'⟩
      rw [(hs y hy).key] at e'
      exact hx' (h.table.keys y (sub y hy) x hx (by rw [e, e']) ▸ hy)
  · refine .inl ?_
    rw [h.lookup_none hn, h'.lookup_none fun y hy e' => hn y (sub y hy) (by rw [← e', (hs y hy).key])]

theorem lookup_shrinks (h : Inv b s v refs) (h' : Inv b' s' v' refs') {curHv : UInt32}
    (p : Shrinks curHv s s' v v') (k : Key) :
    s'.lookup k = s.lookup k ∨ s'.lookup k = none ∧ s.hash k ≠ curHv :=
  h.lookup_lost h' (fun x _ => p.data.sameItem x) p.sub p.lost k

theorem lookup_made (h : Inv b s v refs) (h' : Inv b' s' v' refs') {curHv : UInt32} {it : Ptr}
    (p : Made curHv s s' v v' it) (k : Key) :
    s'.lookup k = s.lookup k ∨ s'.lookup k = none ∧ s.hash k ≠ curHv :=
  h.lookup_lost h' (fun x hx => p.same x (ne_of_mem_of_not_mem hx p.unlinked) (h'.items_alloc x hx))
    p.sub p.lost k

/-! ## Linking and replacing -/

/-- Item `x` has a new CAS id, and nothing else has changed in what items carry. -/
structure Links (s s' : Store) (x : Ptr) : Prop where
  globals : SameGlobals s s'
  same : ∀ y, y ≠ x → s.heap.SameItem s'.heap y
  key : s'.heap.key x = s.heap.key x
  entry : s'.entry x = { s.entry x with cas := UInt64.ofNat (s.casId + 1) }
  casId : s'.casId = s.casId + 1

theorem setFreshCas_eq {t : Store} (hc : (t.flags x).cas = true) (hu : t.settings.useCas = true) :
    t.setFreshCas x = { t with
      heap := { t.heap with cas := Function.update t.heap.cas x (UInt64.ofNat (t.casId + 1)) }
      casId := t.casId + 1 } := by
  rw [Store.setFreshCas, if_pos hc, if_pos hu]
  exact if_pos hc

theorem doItemLink_links (h : Inv b s v refs) (hx : v.Alloc x) (hu : s.settings.useCas = true)
    (hv : UInt32) : Links s (s.doItemLink x hv) x := by
  have hcb : (s.heap.itFlags x).cas = true := by rw [h.casBit x hx, hu]
  have hc : ((s.markLinked x).flags x).cas = true := by
    have : (s.markLinked x).flags x = { s.flags x with linked := true } := Function.update_self _ _ _
    rw [this]; exact hcb
  have hf := setFreshCas_eq (t := s.markLinked x) hc hu
  obtain ⟨a, e, st, ha, -⟩ := ((s.markLinked x).setFreshCas x).assocInsert_frame x hv
  obtain ⟨u, hu'⟩ : ∃ u, u = s.doItemLink x hv := ⟨_, rfl⟩
  have hflag : ∀ y, (u.heap.itFlags y).cas = (s.heap.itFlags y).cas := fun y => by
    rw [hu', Store.doItemLink, ha, hf]
    by_cases e : y = x
    · subst e; simp [Store.refcountIncr, Store.setRefcount, Store.doItemLinkQ, Store.markLinked,
        Store.setFlags, Store.setTime]
    · simp [Store.refcountIncr, Store.setRefcount, Store.doItemLinkQ, Store.markLinked,
        Store.setFlags, Store.setTime, e]
  have hcas : u.heap.cas = Function.update s.heap.cas x (UInt64.ofNat (s.casId + 1)) := by
    rw [hu', Store.doItemLink, ha, hf]; rfl
  rw [← hu']
  refine ⟨?_, fun y hy => ⟨?_, ?_, ?_, ?_, ?_, ?_, hflag y⟩, ?_, ?_, ?_⟩
  · rw [hu', Store.doItemLink, ha, hf]; exact ⟨rfl, rfl, rfl, rfl⟩
  all_goals try (rw [hu', Store.doItemLink, ha, hf]; rfl)
  · rw [hcas, Function.update_of_ne hy]
  · have hg : u.heap.getCas x = UInt64.ofNat (s.casId + 1) := by
      rw [Heap.getCas, hflag, if_pos hcb, hcas, Function.update_self]
    rw [Store.entry, hg, hu', Store.doItemLink, ha, hf]
    rfl

theorem lookup_links (h : Inv b s v refs) (h' : Inv b' s' v' refs') (l : Links s s' x)
    (hi : v'.items = x :: v.items) (hnew : ∀ y ∈ v.items, s.heap.key y ≠ s.heap.key x) :
    s'.lookup = Function.update s.lookup (s.heap.key x)
      (some { s.entry x with cas := UInt64.ofNat (s.casId + 1) }) := by
  have hne : ∀ y ∈ v.items, y ≠ x := fun y hy e => hnew y hy (by rw [e])
  funext k
  by_cases e : k = s.heap.key x
  · subst e
    rw [Function.update_self, ← l.entry]
    exact h'.lookup_mem (by rw [hi]; exact List.mem_cons_self) l.key
  · rw [Function.update_of_ne e]
    refine h.lookup_congr h' (fun y => ?_) fun y hy _ => (l.same y (hne y hy)).entry
    rw [hi, List.mem_cons]
    constructor
    · rintro ⟨rfl | hy, hk⟩
      · exact absurd (by rw [← hk, l.key]) e
      · exact ⟨hy, by rw [← hk, (l.same y (hne y hy)).key]⟩
    · rintro ⟨hy, hk⟩
      exact ⟨.inr hy, by rw [(l.same y (hne y hy)).key, hk]⟩

/-- **`DoItemLink`** gives the item's key to the item, under a new CAS id. -/
theorem link (h : Inv b s v refs) (hx : v.Alloc x)
    (hnew : ∀ y ∈ v.items, s.heap.key y ≠ s.heap.key x) (hu : s.settings.useCas = true) :
    ∃ v', Inv b (s.doItemLink x (s.hash (s.heap.key x))) v' refs ∧
      Links s (s.doItemLink x (s.hash (s.heap.key x))) x ∧ v'.items = x :: v.items ∧
      (s.doItemLink x (s.hash (s.heap.key x))).lookup = Function.update s.lookup (s.heap.key x)
        (some { s.entry x with cas := UInt64.ofNat (s.casId + 1) }) := by
  have h1 := h.doItemLink hx hnew
  have l1 := h.doItemLink_links hx hu (s.hash (s.heap.key x))
  exact ⟨_, h1, l1, rfl, h.lookup_links h1 l1 rfl hnew⟩

/-- **`DoItemReplace`** gives the key of `x` to the item `n`, which may be `x` itself. -/
theorem doItemReplace (h : Inv b s v refs) (hx : x ∈ v.items) (hle : refs x ≤ 65535) {n : Ptr}
    (hn : 1 ≤ refs n) (hk : s.heap.key n = s.heap.key x) (hu : s.settings.useCas = true) :
    ∃ v', Inv b (s.doItemReplace x n (s.hash (s.heap.key x))) v' refs ∧
      Links s (s.doItemReplace x n (s.hash (s.heap.key x))) n ∧
      v'.items = n :: v.items.erase x ∧
      (s.doItemReplace x n (s.hash (s.heap.key x))).lookup = Function.update s.lookup (s.heap.key x)
        (some { s.entry n with cas := UInt64.ofNat (s.casId + 1) }) := by
  obtain ⟨v1, h1, d1⟩ := h.doItemUnlink hx hle
  obtain ⟨t, ht⟩ : ∃ t, t = s.doItemUnlink x (s.hash (s.heap.key x)) := ⟨_, rfl⟩
  rw [← ht] at h1 d1
  have hkt : t.hash (t.heap.key n) = s.hash (s.heap.key x) := by rw [d1.data.hash, d1.data.key, hk]
  have hnew : ∀ y ∈ v1.items, t.heap.key y ≠ t.heap.key n := by
    intro y hy e
    rw [d1.items, h.table.holds.nodup.mem_erase_iff] at hy
    rw [d1.data.key, hk] at e
    exact hy.1 (h.table.keys y hy.2 x hx e)
  have hut : t.settings.useCas = true := by rw [d1.data.settings, hu]
  obtain ⟨v', h', l', hi, hl⟩ := h1.link (h1.alloc_of_refs hn) hnew hut
  have he : s.doItemReplace x n (s.hash (s.heap.key x)) = t.doItemLink n (t.hash (t.heap.key n)) := by
    rw [hkt, ht]; rfl
  have hent : t.entry n = s.entry n := (d1.data.sameItem n).entry
  rw [he]
  refine ⟨v', h', ⟨d1.data.globals.trans l'.globals, fun y hy => (d1.data.sameItem y).trans
    (l'.same y hy), ?_, ?_, ?_⟩, by rw [hi, d1.items], ?_⟩
  · rw [l'.key, d1.data.key]
  · rw [l'.entry, hent, d1.data.casId]
  · rw [l'.casId, d1.data.casId]
  · rw [hl, hent, d1.data.casId, d1.data.key, hk, h.lookup_drops h1 d1 hx, Function.update_idem]

end Inv

end Mdb
