import Mdb.Lib.Run
import Mdb.Assoc.Table

/-!
# Runs of the hash table

Insertions of absent keys, deletions of present keys and migration steps, in any order, for every
hash function and every outcome of the allocations.

* `TableRun`: the store with the items inserted and not deleted since;
* `TableInv`, `TableInv.step`: the table holds exactly these items;
* `assoc_isFiniteMap`: in every state reached the table is a finite map.
-/

namespace Mdb

open Run

/-- The store, and for every key the item inserted under it and not deleted since. -/
structure TableRun where
  store : Store
  present : Key → Option Ptr

/-- One call on the table; a caller passes `hv = Hash(key)`. -/
inductive TableStep : TableRun → TableRun → Prop where
  | insert (r : TableRun) (it : Ptr) (hnew : r.present (r.store.heap.key it) = none) :
      TableStep r
        { store := r.store.assocInsert it (r.store.hash (r.store.heap.key it))
          present := Function.update r.present (r.store.heap.key it) (some it) }
  | delete (r : TableRun) (k : Key) (hin : r.present k ≠ none) :
      TableStep r
        { store := r.store.assocDelete k (r.store.hash k)
          present := Function.update r.present k none }
  | migrate (r : TableRun) : TableStep r { r with store := r.store.migrateBucket }
  /-- Anything else: it leaves the table, the hash function and the keys of its items alone. -/
  | other (r : TableRun) (s : Store) (hassoc : s.assoc = r.store.assoc)
      (hhash : s.hash = r.store.hash)
      (hkeys : ∀ k x, r.present k = some x → s.heap.key x = r.store.heap.key x) :
      TableStep r { r with store := s }

/-- An empty table of any size. -/
def TableRun.Init (r : TableRun) : Prop :=
  (∃ hashpower, 1 ≤ hashpower ∧ r.store.assoc = .initial hashpower) ∧ ∀ k, r.present k = none

/-- The table holds `items`, and these are the items present. -/
structure TableInv (s : Store) (present : Key → Option Ptr) (items : List Ptr) : Prop where
  ok : TableOk s.heap.key s.hash s.assoc items
  present_iff : ∀ k x, present k = some x ↔ x ∈ items ∧ s.heap.key x = k

namespace TableInv

variable {s : Store} {present : Key → Option Ptr} {items : List Ptr}

theorem init {r : TableRun} (h : r.Init) : TableInv r.store r.present [] where
  ok := by
    obtain ⟨⟨hp, hpos, ha⟩, -⟩ := h
    rw [ha]; exact .initial hpos
  present_iff k x := by simp [h.2]

/-- `AssocFind` returns what is present. -/
theorem assocFind (h : TableInv s present items) (k : Key) :
    s.assocFind k (s.hash k) = present k := by
  refine Option.ext fun x => ?_
  rw [h.ok.assocFind_eq_some_iff, h.present_iff]

theorem insert (h : TableInv s present items) {it : Ptr}
    (hnew : present (s.heap.key it) = none) :
    TableInv (s.assocInsert it (s.hash (s.heap.key it)))
      (Function.update present (s.heap.key it) (some it)) (it :: items) := by
  have hne : ∀ x ∈ items, s.heap.key x ≠ s.heap.key it := fun x hx e => by
    rw [(h.present_iff _ x).mpr ⟨hx, e⟩] at hnew
    cases hnew
  have hok := h.ok.assocInsert hne
  obtain ⟨a, e, st, hs, -⟩ := s.assocInsert_frame it (s.hash (s.heap.key it))
  rw [hs] at hok ⊢
  refine ⟨hok, fun k x => ?_⟩
  by_cases ek : k = s.heap.key it
  · subst ek
    rw [Function.update_self, List.mem_cons]
    constructor
    · intro hx
      cases hx
      exact ⟨.inl rfl, rfl⟩
    · rintro ⟨rfl | hx, hk⟩
      · rfl
      · exact absurd hk (hne x hx)
  · rw [Function.update_of_ne ek, h.present_iff, List.mem_cons]
    constructor
    · rintro ⟨hx, hk⟩
      exact ⟨.inr hx, hk⟩
    · rintro ⟨rfl | hx, hk⟩
      · exact absurd hk.symm ek
      · exact ⟨hx, hk⟩

theorem delete (h : TableInv s present items) {k : Key} {it : Ptr} (hin : present k = some it) :
    TableInv (s.assocDelete k (s.hash k)) (Function.update present k none) (items.erase it) := by
  obtain ⟨hit, rfl⟩ := (h.present_iff k it).mp hin
  have hok := h.ok.assocDelete hit
  obtain ⟨a, hs, -⟩ := s.assocDelete_frame (s.heap.key it) (s.hash (s.heap.key it))
  rw [hs] at hok ⊢
  refine ⟨hok, fun k x => ?_⟩
  rw [h.ok.holds.nodup.mem_erase_iff]
  by_cases ek : k = s.heap.key it
  · subst ek
    rw [Function.update_self]
    refine ⟨fun hx => (by cases hx), fun ⟨⟨hne, hx⟩, hk⟩ => ?_⟩
    exact absurd (h.ok.keys x hx it hit hk) hne
  · rw [Function.update_of_ne ek, h.present_iff]
    refine ⟨fun ⟨hx, hk⟩ => ⟨⟨fun e => ek ?_, hx⟩, hk⟩, fun ⟨⟨_, hx⟩, hk⟩ => ⟨hx, hk⟩⟩
    rw [← hk, e]

theorem migrate (h : TableInv s present items) (hp : s.assoc.hashpower ≤ 31) :
    TableInv s.migrateBucket present items := by
  have hok := h.ok.migrateBucket hp
  obtain ⟨a, e, st, hs, -⟩ := s.migrateBucket_frame
  rw [hs] at hok ⊢
  exact ⟨hok, h.present_iff⟩

theorem other (h : TableInv s present items) {t : Store} (hassoc : t.assoc = s.assoc)
    (hhash : t.hash = s.hash) (hkeys : ∀ k x, present k = some x → t.heap.key x = s.heap.key x) :
    TableInv t present items := by
  have hk : ∀ x ∈ items, t.heap.key x = s.heap.key x := fun x hx =>
    hkeys (s.heap.key x) x ((h.present_iff _ x).mpr ⟨hx, rfl⟩)
  refine ⟨?_, fun k x => ?_⟩
  · rw [hassoc, hhash]; exact h.ok.congr hk
  · rw [h.present_iff]
    exact and_congr_right fun hx => by rw [hk x hx]

end TableInv

/-! ## Whole runs -/

/-- The table never shrinks. -/
theorem TableStep.hashpower_le {r r' : TableRun} (h : TableStep r r') :
    r.store.assoc.hashpower ≤ r'.store.assoc.hashpower := by
  cases h with
  | insert it hnew =>
    obtain ⟨a, e, st, hs, ha⟩ := r.store.assocInsert_frame it (r.store.hash (r.store.heap.key it))
    simp only [hs]; exact ha
  | delete k hin =>
    obtain ⟨a, hs, ha⟩ := r.store.assocDelete_frame k (r.store.hash k)
    simp only [hs]; exact ha.ge
  | migrate =>
    obtain ⟨a, e, st, hs, ha⟩ := r.store.migrateBucket_frame
    simp only [hs]; exact ha.ge
  | other s hassoc hhash hkeys => simp only [hassoc]; exact le_rfl

/-- **Every step keeps the invariant** while buckets can be numbered by an `int`. -/
theorem TableInv.step {r r' : TableRun} {items : List Ptr} (h : TableInv r.store r.present items)
    (hs : TableStep r r') (hp : r.store.assoc.hashpower ≤ 31) :
    ∃ items', TableInv r'.store r'.present items' := by
  cases hs with
  | insert it hnew => exact ⟨_, h.insert hnew⟩
  | delete k hin =>
    obtain ⟨it, hit⟩ := Option.ne_none_iff_exists'.mp hin
    exact ⟨_, h.delete hit⟩
  | migrate => exact ⟨_, h.migrate hp⟩
  | other s hassoc hhash hkeys => exact ⟨_, h.other hassoc hhash hkeys⟩

theorem TableInv.reach {r : TableRun} (h : Reach TableRun.Init TableStep r)
    (hp : r.store.assoc.hashpower ≤ 31) : ∃ items, TableInv r.store r.present items := by
  induction h with
  | start h0 => exact ⟨_, init h0⟩
  | next _ ht ih =>
    have hle := ht.hashpower_le
    obtain ⟨items, hi⟩ := ih (hle.trans hp)
    exact hi.step ht (hle.trans hp)

/-- **What a finite map is, chain by chain.** -/
structure IsFiniteMap (r : TableRun) : Prop where
  /-- `AssocFind` is exact. -/
  find : ∀ k, r.store.assocFind k (r.store.hash k) = r.present k
  /-- `AssocDelete` removes that item and nothing else. -/
  delete : ∀ k x, r.present k = some x → ∀ sl,
    (r.store.assocDelete k (r.store.hash k)).assoc.table sl = (r.store.assoc.table sl).erase x
  /-- A present item is once in one chain of one of the two tables. -/
  place : ∀ k x, r.present k = some x → ∃ sl, (r.store.assoc.table sl).count x = 1 ∧
    ∀ sl', x ∈ r.store.assoc.table sl' → sl' = sl
  /-- Nothing else is in a chain. -/
  only : ∀ sl x, x ∈ r.store.assoc.table sl → ∃ k, r.present k = some x
  /-- `hash_items_` counts the present items. -/
  count : ∃ items : List Ptr, items.Nodup ∧ (∀ x, x ∈ items ↔ ∃ k, r.present k = some x) ∧
    r.store.assoc.hashItems = UInt32.ofNat items.length ∧
    (items.length < 2 ^ 32 → r.store.assoc.hashItems.toNat = items.length)
  /-- The migration step after which the old table is discarded has emptied it. -/
  discard : r.store.assoc.expanding = true →
    (r.store.assoc.moveBucket r.store.hv).expandBucket =
      Store.hashsize (r.store.assoc.hashpower - 1) →
    ∀ b, (r.store.assoc.moveBucket r.store.hv).old b = []

theorem TableInv.isFiniteMap {r : TableRun} {items : List Ptr}
    (h : TableInv r.store r.present items) (hp : r.store.assoc.hashpower ≤ 31) :
    IsFiniteMap r where
  find := h.assocFind
  delete k x hx sl := by
    obtain ⟨hin, rfl⟩ := (h.present_iff k x).mp hx
    exact h.ok.table_assocDelete hin sl
  place k x hx := by
    have hx := ((h.present_iff k x).mp hx).1
    refine ⟨_, List.count_eq_one_of_mem (h.ok.holds.chain_nodup _) (h.ok.holds.mem_place hx), ?_⟩
    exact fun sl' hm => ((h.ok.holds.mem_iff sl' x).mp hm).2.symm
  only sl x hx :=
    ⟨_, (h.present_iff (r.store.heap.key x) x).mpr ⟨((h.ok.holds.mem_iff sl x).mp hx).1, rfl⟩⟩
  count := by
    refine ⟨items, h.ok.holds.nodup, fun x => ?_, h.ok.count, fun hlt => ?_⟩
    · refine ⟨fun hx => ⟨_, (h.present_iff _ x).mpr ⟨hx, rfl⟩⟩, fun ⟨k, hk⟩ => ?_⟩
      exact ((h.present_iff k x).mp hk).1
    · rw [h.ok.count, UInt32.toNat_ofNat_of_lt' hlt]
  discard he hend b := h.ok.moveBucket_old_empty he hp hend b

/-- **The hash table is a finite map** in every state of every run. -/
theorem assoc_isFiniteMap {r : TableRun} (h : Reach TableRun.Init TableStep r)
    (hp : r.store.assoc.hashpower ≤ 31) : IsFiniteMap r := by
  obtain ⟨items, hi⟩ := TableInv.reach h hp
  exact hi.isFiniteMap hp

/-- A run with one insertion into a table of two buckets. -/
theorem assoc_isFiniteMap_insert : ∃ r : TableRun, r.store.assoc.hashpower ≤ 31 ∧
    r.present .empty = some (.chunk 8) ∧ IsFiniteMap r := by
  let r : TableRun := ⟨Store.initial 1 (fun _ => 0) (.initial 0) .failing, fun _ => none⟩
  have h0 : Reach TableRun.Init TableStep r := .start ⟨⟨1, le_rfl, rfl⟩, fun _ => rfl⟩
  have h1 := h0.next (.insert r (.chunk 8) rfl)
  exact ⟨_, by decide, by decide, assoc_isFiniteMap h1 (by decide)⟩

end Mdb
