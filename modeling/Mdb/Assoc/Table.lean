import Mdb.Lib.Buckets
import Mdb.State

/-!
# The hash table

`AssocMaintainer` with its incremental expansion: while `expanding_`, a key's chain is in the old
table as long as its old bucket has not been moved.

* `Assoc.slot a hv`: the chain searched for hash value `hv`; `Assoc.table`: all chains of both
  tables;
* `assocFind`, `assocInsert`, `assocDelete`, `assocExpand`, `migrateBucket`;
* `TableOk key hash a items`: the table holds exactly `items`;
* `TableOk.assocInsert`, `TableOk.assocDelete`, `TableOk.assocExpand`, `TableOk.migrateBucket`: every
  operation keeps it; `TableOk.find_iff`: finding is looking up;
* `HashCounts`: `hash_bytes` and `hash_is_expanding` of `g_stats`.
-/

namespace Mdb

open Buckets

/-- A chain of one of the two tables. -/
inductive Slot where
  | primary (bucket : ℕ)
  | old (bucket : ℕ)
  deriving DecidableEq

/-- The array index an `int` holding `n < 2 ^ 32` stands for: above `INT_MAX` it is negative. -/
def intIndex (n : ℕ) : ℕ := if n < 2 ^ 31 then n else n + (2 ^ 64 - 2 ^ 32)

namespace Assoc

variable (a : Assoc)

/-- The chain `AssocFind`, `AssocInsert` and `HashitemBefore` choose for `hv`. -/
def slot (hv : UInt32) : Slot :=
  let oldbucket := hv.toNat &&& Store.hashmask (a.hashpower - 1)
  if a.expanding = true ∧ a.expandBucket ≤ oldbucket then .old oldbucket
  else .primary (hv.toNat &&& Store.hashmask a.hashpower)

/-- A chain; there is an old table only while expanding. -/
def table : Slot → List Ptr
  | .primary b => a.primary b
  | .old b => if a.expanding then a.old b else []

def setChain : Slot → List Ptr → Assoc
  | .primary b, l => { a with primary := Function.update a.primary b l }
  | .old b, l => { a with old := Function.update a.old b l }

/-- `it` becomes the first of the chain for `hv`. -/
def insertChain (it : Ptr) (hv : UInt32) : Assoc :=
  { a.setChain (a.slot hv) (it :: a.table (a.slot hv)) with hashItems := a.hashItems + 1 }

/-- `it` is taken out of the chain for `hv`. -/
def deleteChain (it : Ptr) (hv : UInt32) : Assoc :=
  { a.setChain (a.slot hv) ((a.table (a.slot hv)).erase it) with hashItems := a.hashItems - 1 }

/-- The load test of `AssocInsert`. -/
def Overloaded : Prop :=
  a.expanding = false ∧ Store.hashsize a.hashpower * 3 / 2 < a.hashItems.toNat

instance : Decidable a.Overloaded := inferInstanceAs (Decidable (_ ∧ _))

/-- One bucket of the old table is moved; `hv` gives the hash of an item's key. -/
def moveBucket (hv : Ptr → UInt32) : Assoc :=
  { a with
    primary := (a.old a.expandBucket).foldl
      (push fun it => intIndex ((hv it).toNat &&& Store.hashmask a.hashpower)) a.primary
    old := Function.update a.old a.expandBucket []
    expandBucket := (a.expandBucket + 1) % 2 ^ 32 }

end Assoc

namespace Store

variable (s : Store)

/-- `Hash(ITEM_key(it), it->nkey)`. -/
def hv (it : Ptr) : UInt32 := s.hash (s.heap.key it)

/-- `AssocFind(key, nkey, hv)`. -/
def assocFind (key : Key) (hv : UInt32) : Option Ptr :=
  (s.assoc.table (s.assoc.slot hv)).find? fun it => s.heap.key it = key

/-- `AssocExpand`. The old table is overwritten whether or not the `calloc` succeeds. -/
def assocExpand : Store :=
  let s' := { s with env := { s.env with callocs := fun n => s.env.callocs (n + 1) } }
  if s.env.callocs 0 then
    { s' with
      assoc := { s.assoc with
        old := s.assoc.primary
        primary := fun _ => []
        hashpower := s.assoc.hashpower + 1
        expanding := true
        expandBucket := 0 }
      stats := { s.stats with
        hashPowerLevel := s.assoc.hashpower + 1
        hashBytes := s.stats.hashBytes + UInt64.ofNat (hashsize (s.assoc.hashpower + 1) * 8)
        hashIsExpanding := true } }
  else { s' with assoc := { s.assoc with old := s.assoc.primary } }

/-- `AssocInsert(it, hv)`. -/
def assocInsert (it : Ptr) (hv : UInt32) : Store :=
  let a := s.assoc.insertChain it hv
  if a.Overloaded then { s with assoc := a }.assocExpand else { s with assoc := a }

/-- `AssocDelete(key, nkey, hv)`: the first item of the chain with that key. -/
def assocDelete (key : Key) (hv : UInt32) : Store :=
  match s.assocFind key hv with
  | none => s
  | some it => { s with assoc := s.assoc.deleteChain it hv }

/-- The end of a migration: the old table is given back. -/
def endExpansion : Store :=
  if s.assoc.expandBucket = hashsize (s.assoc.hashpower - 1) then
    { s with
      assoc := { s.assoc with expanding := false, old := fun _ => [] }
      stats := { s.stats with
        hashBytes := s.stats.hashBytes - UInt64.ofNat (hashsize (s.assoc.hashpower - 1) * 8)
        hashIsExpanding := false } }
  else s

/-- One iteration of the migration loop of `AssocMaintainer::Run`. -/
def migrateBucket : Store :=
  if s.assoc.expanding then
    match s.tryLock (UInt32.ofNat s.assoc.expandBucket) with
    | (none, s) => s
    | (some l, s) => { s with assoc := s.assoc.moveBucket s.hv }.endExpansion.tryLockUnlock l
  else s

end Store

/-! ## What the table holds -/

/-- **The table holds exactly `items`**, each once, in the chain searched for its key; no two have the
same key. -/
structure TableOk (key : Ptr → Key) (hash : Key → UInt32) (a : Assoc) (items : List Ptr) : Prop where
  holds : Holds (fun x => a.slot (hash (key x))) a.table items
  keys : ∀ x ∈ items, ∀ y ∈ items, key x = key y → x = y
  hashpower_pos : 1 ≤ a.hashpower
  count : a.hashItems = UInt32.ofNat items.length
  bucket : a.expanding = true → a.expandBucket < 2 ^ (a.hashpower - 1)

theorem and_hashmask (n p : ℕ) : n &&& Store.hashmask p = n % 2 ^ p :=
  Nat.and_two_pow_sub_one_eq_mod n p

namespace Assoc

variable {a : Assoc}

theorem slot_primary (h : a.expanding = false) (hv : UInt32) :
    a.slot hv = .primary (hv.toNat % 2 ^ a.hashpower) := by
  simp [slot, h, and_hashmask]

theorem slot_expanding (h : a.expanding = true) (hv : UInt32) :
    a.slot hv = if a.expandBucket ≤ hv.toNat % 2 ^ (a.hashpower - 1)
      then .old (hv.toNat % 2 ^ (a.hashpower - 1)) else .primary (hv.toNat % 2 ^ a.hashpower) := by
  simp [slot, h, and_hashmask]

@[simp] theorem slot_setChain (sl : Slot) (l : List Ptr) (hv : UInt32) :
    (a.setChain sl l).slot hv = a.slot hv := by
  cases sl <;> rfl

@[simp] theorem setChain_expanding (sl : Slot) (l : List Ptr) :
    (a.setChain sl l).expanding = a.expanding := by
  cases sl <;> rfl

@[simp] theorem setChain_expandBucket (sl : Slot) (l : List Ptr) :
    (a.setChain sl l).expandBucket = a.expandBucket := by
  cases sl <;> rfl

@[simp] theorem setChain_hashpower (sl : Slot) (l : List Ptr) :
    (a.setChain sl l).hashpower = a.hashpower := by
  cases sl <;> rfl

/-- Setting the chain searched for `hv` changes that chain only. -/
theorem table_setChain (hv : UInt32) (l : List Ptr) :
    (a.setChain (a.slot hv) l).table = Function.update a.table (a.slot hv) l := by
  funext sl
  cases he : a.expanding with
  | false =>
    rw [slot_primary he]
    cases sl with
    | primary b => simp [setChain, table, Function.update_apply]
    | old b => simp [setChain, table, he]
  | true =>
    rw [slot_expanding he]
    split_ifs with hb <;> cases sl <;> simp [setChain, table, he, Function.update_apply]

end Assoc

namespace TableOk

variable {key : Ptr → Key} {hash : Key → UInt32} {a : Assoc} {items : List Ptr} {it : Ptr}

theorem initial {hashpower : ℕ} (h : 1 ≤ hashpower) :
    TableOk key hash (.initial hashpower) [] where
  holds := by
    have e : (Assoc.initial hashpower).table = fun _ => [] := by
      funext sl; cases sl <;> rfl
    rw [e]; exact holds_nil
  keys x hx := by cases hx
  hashpower_pos := h
  count := rfl
  bucket h := by cases h

/-- The table reads only the keys of the items it holds. -/
theorem congr {key' : Ptr → Key} (h : TableOk key hash a items)
    (hk : ∀ x ∈ items, key' x = key x) : TableOk key' hash a items where
  holds := h.holds.congr fun x hx => by rw [hk x hx]
  keys x hx y hy e := h.keys x hx y hy (by rw [← hk x hx, ← hk y hy, e])
  hashpower_pos := h.hashpower_pos
  count := h.count
  bucket := h.bucket

theorem insertChain (h : TableOk key hash a items) (hnew : ∀ x ∈ items, key x ≠ key it) :
    TableOk key hash (a.insertChain it (hash (key it))) (it :: items) where
  holds := by
    have := h.holds.insert fun hm => hnew it hm rfl
    rw [push, ← Assoc.table_setChain] at this
    exact this.congr fun x _ => Assoc.slot_setChain _ _ _
  keys x hx y hy e := by
    rcases List.mem_cons.mp hx with hx' | hx' <;> rcases List.mem_cons.mp hy with hy' | hy'
    · rw [hx', hy']
    · exact absurd (by rw [← e, hx']) (hnew y hy')
    · exact absurd (by rw [e, hy']) (hnew x hx')
    · exact h.keys x hx' y hy' e
  hashpower_pos := by simpa [Assoc.insertChain] using h.hashpower_pos
  count := by simp [Assoc.insertChain, h.count, UInt32.ofNat_add]
  bucket he := by
    simpa [Assoc.insertChain] using h.bucket (by simpa [Assoc.insertChain] using he)

theorem deleteChain (h : TableOk key hash a items) (hit : it ∈ items) :
    TableOk key hash (a.deleteChain it (hash (key it))) (items.erase it) where
  holds := by
    have := h.holds.erase it
    rw [← Assoc.table_setChain] at this
    exact this.congr fun x _ => Assoc.slot_setChain _ _ _
  keys x hx y hy e := h.keys x (List.mem_of_mem_erase hx) y (List.mem_of_mem_erase hy) e
  hashpower_pos := by simpa [Assoc.deleteChain] using h.hashpower_pos
  count := by
    have hpos : 1 ≤ items.length := List.length_pos_of_mem hit
    rw [Assoc.deleteChain, List.length_erase_of_mem hit, UInt32.ofNat_sub hpos, h.count]
    rfl
  bucket he := by
    simpa [Assoc.deleteChain] using h.bucket (by simpa [Assoc.deleteChain] using he)

/-- **The first expansion step** only renames the chains: the whole table becomes the old one. -/
theorem expandTable (h : TableOk key hash a items) (he : a.expanding = false) :
    TableOk key hash { a with
      old := a.primary, primary := fun _ => [], hashpower := a.hashpower + 1
      expanding := true, expandBucket := 0 } items where
  holds :=
    { nodup := h.holds.nodup
      chain_nodup := fun sl => by
        cases sl with
        | primary b => exact List.nodup_nil
        | old b => exact h.holds.chain_nodup (.primary b)
      mem_iff := fun sl x => by
        rw [Assoc.slot_expanding rfl]
        cases sl with
        | primary b => simp [Assoc.table]
        | old b =>
          have := h.holds.mem_iff (.primary b) x
          rw [Assoc.slot_primary he] at this
          simpa [Assoc.table] using this }
  keys := h.keys
  hashpower_pos := by simp
  count := h.count
  bucket _ := by simp

theorem keepOld (h : TableOk key hash a items) (he : a.expanding = false) (old : ℕ → List Ptr) :
    TableOk key hash { a with old := old } items where
  holds := by
    have e : ({ a with old := old } : Assoc).table = a.table := by
      funext sl; cases sl <;> simp [Assoc.table, he]
    rw [e]
    exact h.holds
  keys := h.keys
  hashpower_pos := h.hashpower_pos
  count := h.count
  bucket := h.bucket

/-- Pushing onto primary chains is pushing into the primary table. -/
theorem foldl_push_primary (f : Ptr → ℕ) (place : Ptr → Slot) (l : List Ptr)
    (hf : ∀ x ∈ l, place x = .primary (f x)) (T : Slot → List Ptr) :
    (∀ b, l.foldl (push place) T (.old b) = T (.old b)) ∧
      ∀ b, l.foldl (push place) T (.primary b) = l.foldl (push f) (fun b => T (.primary b)) b := by
  induction l generalizing T with
  | nil => exact ⟨fun _ => rfl, fun _ => rfl⟩
  | cons x l ih =>
    have hx : place x = .primary (f x) := hf x List.mem_cons_self
    obtain ⟨h1, h2⟩ := ih (fun y hy => hf y (List.mem_cons_of_mem _ hy)) (push place T x)
    have hp : (fun b => push place T x (.primary b)) = push f (fun b => T (.primary b)) x := by
      funext b
      simp [push, hx, Function.update_apply]
    refine ⟨fun b => ?_, fun b => ?_⟩
    · rw [List.foldl_cons, h1]
      simp [push, hx]
    · rw [List.foldl_cons, h2, hp, List.foldl_cons]

/-- **Moving one bucket** keeps the table, between two buckets. -/
theorem moveBucket (h : TableOk key hash a items) (he : a.expanding = true)
    (hp : a.hashpower ≤ 31) :
    Holds (fun x => (a.moveBucket fun x => hash (key x)).slot (hash (key x)))
      (a.moveBucket fun x => hash (key x)).table items ∧
    (a.moveBucket fun x => hash (key x)).expandBucket = a.expandBucket + 1 := by
  have hb := h.bucket he
  have hlt : a.expandBucket + 1 < 2 ^ 32 := by
    have : 2 ^ (a.hashpower - 1) ≤ 2 ^ 30 := Nat.pow_le_pow_right (by norm_num) (by omega)
    omega
  have hbucket : (a.expandBucket + 1) % 2 ^ 32 = a.expandBucket + 1 := Nat.mod_eq_of_lt hlt
  have hslot : ∀ hv : UInt32, (a.moveBucket fun x => hash (key x)).slot hv =
      if a.expandBucket + 1 ≤ hv.toNat % 2 ^ (a.hashpower - 1)
      then .old (hv.toNat % 2 ^ (a.hashpower - 1)) else .primary (hv.toNat % 2 ^ a.hashpower) := by
    intro hv
    rw [← hbucket]
    exact Assoc.slot_expanding (a := a.moveBucket fun x => hash (key x)) he hv
  refine ⟨?_, hbucket⟩
  have hre := h.holds.rehash (fun x =>
      (a.moveBucket fun x => hash (key x)).slot (hash (key x))) (.old a.expandBucket) ?_
  · -- the moved chain goes to primary buckets, which an `int` can number
    have hprim : ∀ x ∈ a.table (.old a.expandBucket),
        (a.moveBucket fun x => hash (key x)).slot (hash (key x)) =
          .primary (intIndex ((hash (key x)).toNat &&& Store.hashmask a.hashpower)) := by
      intro x hx
      have hx := ((h.holds.mem_iff _ x).mp hx).2
      rw [Assoc.slot_expanding he] at hx
      have hmod : (hash (key x)).toNat % 2 ^ a.hashpower < 2 ^ 31 :=
        lt_of_lt_of_le (Nat.mod_lt _ (by positivity))
          (Nat.pow_le_pow_right (by norm_num) hp)
      rw [hslot, and_hashmask, intIndex, if_pos hmod, if_neg]
      split_ifs at hx with hle
      have := Slot.old.inj hx
      omega
    obtain ⟨h1, h2⟩ := foldl_push_primary _ _ _ hprim
      (Function.update a.table (.old a.expandBucket) [])
    have htab : (a.moveBucket fun x => hash (key x)).table =
        (a.table (.old a.expandBucket)).foldl
          (push fun x => (a.moveBucket fun x => hash (key x)).slot (hash (key x)))
          (Function.update a.table (.old a.expandBucket) []) := by
      funext sl
      cases sl with
      | primary b =>
        rw [h2]
        simp [Assoc.table, Assoc.moveBucket, he]
      | old b =>
        rw [h1]
        by_cases e : b = a.expandBucket
        · subst e; simp [Assoc.table, Assoc.moveBucket, he]
        · simp [Assoc.table, Assoc.moveBucket, he, e]
    rw [htab]
    exact hre
  · intro x _ hne
    rw [hslot, Assoc.slot_expanding he]
    rw [Assoc.slot_expanding he] at hne
    by_cases h1 : a.expandBucket + 1 ≤ (hash (key x)).toNat % 2 ^ (a.hashpower - 1)
    · rw [if_pos h1, if_pos (by omega)]
    · rw [if_neg h1]
      split_ifs at hne ⊢ with h2
      · exact absurd (by congr 1; omega) hne
      · rfl

/-- **The old table is empty when it is given back.** -/
theorem moveBucket_old_empty (h : TableOk key hash a items) (he : a.expanding = true)
    (hp : a.hashpower ≤ 31) (hend : (a.moveBucket fun x => hash (key x)).expandBucket =
      2 ^ (a.hashpower - 1)) (b : ℕ) : (a.moveBucket fun x => hash (key x)).old b = [] := by
  have hh := (h.moveBucket he hp).1
  have he' : (a.moveBucket fun x => hash (key x)).expanding = true := he
  refine List.eq_nil_iff_forall_not_mem.mpr fun x hx => ?_
  have hx : x ∈ (a.moveBucket fun x => hash (key x)).table (.old b) := by
    simpa [Assoc.table, he'] using hx
  have hpl := ((hh.mem_iff _ x).mp hx).2
  rw [Assoc.slot_expanding he', hend, if_neg] at hpl
  · cases hpl
  · exact not_le_of_gt (Nat.mod_lt _ (by positivity))

/-- Looking a key up finds exactly the item that has it. -/
theorem find_iff (h : TableOk key hash a items) (k : Key) (x : Ptr) :
    (a.table (a.slot (hash k))).find? (fun y => key y = k) = some x ↔ x ∈ items ∧ key x = k := by
  constructor
  · intro hf
    have hk : key x = k := by simpa using List.find?_some hf
    exact ⟨((h.holds.mem_iff _ x).mp (List.mem_of_find?_eq_some hf)).1, hk⟩
  · rintro ⟨hx, rfl⟩
    exact h.holds.find_eq_some hx fun y hy e => h.keys y hy x hx e

end TableOk

/-! ## The operations on the store -/

namespace TableOk

variable {s : Store} {items : List Ptr} {it : Ptr}

theorem assocExpand (h : TableOk s.heap.key s.hash s.assoc items)
    (he : s.assoc.expanding = false) :
    TableOk s.heap.key s.hash s.assocExpand.assoc items := by
  unfold Store.assocExpand
  split_ifs
  · exact h.expandTable he
  · exact h.keepOld he _

theorem assocInsert (h : TableOk s.heap.key s.hash s.assoc items)
    (hnew : ∀ x ∈ items, s.heap.key x ≠ s.heap.key it) :
    TableOk s.heap.key s.hash (s.assocInsert it (s.hash (s.heap.key it))).assoc (it :: items) := by
  have hi := h.insertChain hnew
  dsimp only [Store.assocInsert]
  split_ifs with hc
  · exact assocExpand (s := { s with assoc := s.assoc.insertChain it (s.hash (s.heap.key it)) })
      hi hc.1
  · exact hi

theorem assocDelete (h : TableOk s.heap.key s.hash s.assoc items) (hit : it ∈ items) :
    TableOk s.heap.key s.hash (s.assocDelete (s.heap.key it) (s.hash (s.heap.key it))).assoc
      (items.erase it) := by
  have hf : s.assocFind (s.heap.key it) (s.hash (s.heap.key it)) = some it :=
    (h.find_iff (s.heap.key it) it).mpr ⟨hit, rfl⟩
  simp only [Store.assocDelete, hf]
  exact h.deleteChain hit

theorem endExpansion {t : Store} (h : Holds (fun x => t.assoc.slot (t.hash (t.heap.key x)))
      t.assoc.table items)
    (hk : ∀ x ∈ items, ∀ y ∈ items, t.heap.key x = t.heap.key y → x = y)
    (hpos : 1 ≤ t.assoc.hashpower) (hc : t.assoc.hashItems = UInt32.ofNat items.length)
    (he : t.assoc.expanding = true) (hb : t.assoc.expandBucket ≤ 2 ^ (t.assoc.hashpower - 1)) :
    TableOk t.heap.key t.hash t.endExpansion.assoc items := by
  unfold Store.endExpansion
  split_ifs with hend
  · -- every hash value is below the bound now, so all chains are primary
    have hslot : ∀ hv : UInt32, t.assoc.slot hv = .primary (hv.toNat % 2 ^ t.assoc.hashpower) := by
      intro hv
      rw [Assoc.slot_expanding he, hend, if_neg]
      exact not_le_of_gt (Nat.mod_lt _ (by positivity))
    refine ⟨⟨h.nodup, fun sl => ?_, fun sl x => ?_⟩, hk, hpos, hc, fun h => by cases h⟩
    · cases sl with
      | primary b => exact h.chain_nodup (.primary b)
      | old b => exact List.nodup_nil
    · rw [Assoc.slot_primary rfl]
      cases sl with
      | primary b =>
        have := h.mem_iff (.primary b) x
        rwa [hslot] at this
      | old b => simp [Assoc.table]
  · exact ⟨h, hk, hpos, hc, fun _ => lt_of_le_of_ne hb hend⟩

/-- **One step of the migration thread** keeps what the table holds. -/
theorem migrateBucket (h : TableOk s.heap.key s.hash s.assoc items)
    (hp : s.assoc.hashpower ≤ 31) :
    TableOk s.heap.key s.hash s.migrateBucket.assoc items := by
  unfold Store.migrateBucket
  split_ifs with he
  · obtain ⟨e, ht⟩ | ⟨l, e, ht⟩ := s.tryLock_cases (UInt32.ofNat s.assoc.expandBucket)
    · simp only [ht]
      exact h
    · simp only [ht]
      obtain ⟨hh, hb⟩ := h.moveBucket he hp
      have := endExpansion (t := { s with
        env := e, itemLocks := l :: s.itemLocks, assoc := s.assoc.moveBucket s.hv }) hh h.keys
        h.hashpower_pos h.count he (hb.trans_le (h.bucket he))
      exact this
  · exact h

/-- **`AssocFind` looks the key up.** -/
theorem assocFind_eq_some_iff (h : TableOk s.heap.key s.hash s.assoc items) (k : Key) (x : Ptr) :
    s.assocFind k (s.hash k) = some x ↔ x ∈ items ∧ s.heap.key x = k :=
  h.find_iff k x

/-- **Deletion takes the item out of its chain** and touches no other. -/
theorem table_assocDelete (h : TableOk s.heap.key s.hash s.assoc items) (hit : it ∈ items)
    (sl : Slot) :
    (s.assocDelete (s.heap.key it) (s.hash (s.heap.key it))).assoc.table sl =
      (s.assoc.table sl).erase it := by
  have hf := (h.assocFind_eq_some_iff (s.heap.key it) it).mpr ⟨hit, rfl⟩
  have ht : (s.assoc.deleteChain it (s.hash (s.heap.key it))).table =
      Function.update s.assoc.table (s.assoc.slot (s.hash (s.heap.key it)))
        ((s.assoc.table (s.assoc.slot (s.hash (s.heap.key it)))).erase it) :=
    Assoc.table_setChain _ _
  simp only [Store.assocDelete, hf, ht]
  by_cases e : sl = s.assoc.slot (s.hash (s.heap.key it))
  · rw [e, Function.update_self]
  · rw [Function.update_of_ne e, List.erase_of_not_mem]
    exact fun hm => e ((h.holds.mem_iff sl it).mp hm).2.symm

end TableOk

namespace Store

variable (s : Store)

/-! ## What the operations leave alone -/

theorem assocExpand_frame : ∃ a e st, s.assocExpand = { s with assoc := a, env := e, stats := st } ∧
    s.assoc.hashpower ≤ a.hashpower := by
  unfold assocExpand
  split_ifs
  · exact ⟨_, _, _, rfl, Nat.le_succ _⟩
  · exact ⟨_, _, _, rfl, le_rfl⟩

theorem assocInsert_frame (it : Ptr) (hv : UInt32) :
    ∃ a e st, s.assocInsert it hv = { s with assoc := a, env := e, stats := st } ∧
      s.assoc.hashpower ≤ a.hashpower := by
  have hp : (s.assoc.insertChain it hv).hashpower = s.assoc.hashpower := by
    simp [Assoc.insertChain]
  dsimp only [assocInsert]
  split_ifs
  · obtain ⟨a, e, st, he, ha⟩ := assocExpand_frame { s with assoc := s.assoc.insertChain it hv }
    exact ⟨a, e, st, he, hp ▸ ha⟩
  · exact ⟨_, _, _, rfl, hp.ge⟩

/-- The table does not outgrow `int` bucket numbers while there are few items. -/
theorem assocInsert_hashpower_le (it : Ptr) (hv : UInt32) (hp : s.assoc.hashpower ≤ 31)
    (hn : (s.assoc.hashItems + 1).toNat < 2 ^ 31) : (s.assocInsert it hv).assoc.hashpower ≤ 31 := by
  have hp' : (s.assoc.insertChain it hv).hashpower = s.assoc.hashpower := by
    simp [Assoc.insertChain]
  dsimp only [assocInsert]
  split_ifs with ho
  · have hlt : hashsize s.assoc.hashpower * 3 / 2 < 2 ^ 31 := by
      have := ho.2
      rw [hp'] at this
      exact lt_trans this hn
    have hne : s.assoc.hashpower ≠ 31 := fun e => by rw [e] at hlt; revert hlt; decide
    unfold assocExpand
    split_ifs
    · simp only [hp']; omega
    · simp only [hp']; exact hp
  · simp only [hp']; exact hp

theorem assocDelete_frame (k : Key) (hv : UInt32) :
    ∃ a, s.assocDelete k hv = { s with assoc := a } ∧ a.hashpower = s.assoc.hashpower := by
  unfold assocDelete
  split
  · exact ⟨_, rfl, rfl⟩
  · exact ⟨_, rfl, by simp [Assoc.deleteChain]⟩

theorem endExpansion_frame : ∃ a st, s.endExpansion = { s with assoc := a, stats := st } ∧
    a.hashpower = s.assoc.hashpower := by
  unfold endExpansion
  split_ifs
  · exact ⟨_, _, rfl, rfl⟩
  · exact ⟨_, _, rfl, rfl⟩

/-- The item lock taken for a bucket is given back. -/
theorem migrateBucket_frame :
    ∃ a e st, s.migrateBucket = { s with assoc := a, env := e, stats := st } ∧
      a.hashpower = s.assoc.hashpower := by
  unfold migrateBucket
  split_ifs with he
  · obtain ⟨e, ht⟩ | ⟨l, e, ht⟩ := s.tryLock_cases (UInt32.ofNat s.assoc.expandBucket)
    · simp only [ht]
      exact ⟨_, _, _, rfl, rfl⟩
    · simp only [ht]
      obtain ⟨a, st, hs, ha⟩ := endExpansion_frame { s with
        env := e, itemLocks := l :: s.itemLocks, assoc := s.assoc.moveBucket s.hv }
      refine ⟨a, e, st, (congrArg (tryLockUnlock · l) hs).trans ?_, ha⟩
      simp [tryLockUnlock]
  · exact ⟨_, _, _, rfl, rfl⟩

end Store

/-! ## The statistics -/

/-- The bytes of the tables: the old one is there only while expanding. -/
def Assoc.bytes (a : Assoc) : ℕ :=
  8 * Store.hashsize a.hashpower + if a.expanding then 8 * Store.hashsize (a.hashpower - 1) else 0

/-- **`g_stats` agrees with the tables.** -/
structure HashCounts (st : Stats) (a : Assoc) : Prop where
  expanding : st.hashIsExpanding = a.expanding
  bytes : st.hashBytes = UInt64.ofNat a.bytes

/-- The counters of items and bytes are the same. -/
structure SameCounts (st st' : Stats) : Prop where
  currItems : st'.currItems = st.currItems
  currBytes : st'.currBytes = st.currBytes

theorem SameCounts.trans {st₁ st₂ st₃ : Stats} (h : SameCounts st₁ st₂) (h' : SameCounts st₂ st₃) :
    SameCounts st₁ st₃ :=
  ⟨h'.currItems.trans h.currItems, h'.currBytes.trans h.currBytes⟩

namespace HashCounts

variable {s : Store}

theorem congr {st : Stats} {a a' : Assoc} (h : HashCounts st a) (hp : a'.hashpower = a.hashpower)
    (he : a'.expanding = a.expanding) : HashCounts st a' :=
  ⟨h.expanding.trans he.symm, by rw [Assoc.bytes, hp, he]; exact h.bytes⟩

theorem assocExpand (h : HashCounts s.stats s.assoc) (he : s.assoc.expanding = false) :
    HashCounts s.assocExpand.stats s.assocExpand.assoc ∧
      SameCounts s.stats s.assocExpand.stats := by
  have hb : s.stats.hashBytes = UInt64.ofNat (8 * Store.hashsize s.assoc.hashpower) := by
    rw [h.bytes, Assoc.bytes, he]; rfl
  unfold Store.assocExpand
  split_ifs
  · refine ⟨⟨rfl, ?_⟩, rfl, rfl⟩
    show s.stats.hashBytes + _ = UInt64.ofNat (8 * Store.hashsize (s.assoc.hashpower + 1) +
      8 * Store.hashsize (s.assoc.hashpower + 1 - 1))
    rw [hb, ← UInt64.ofNat_add, Nat.add_sub_cancel, Nat.mul_comm 8, Nat.mul_comm 8, Nat.add_comm]
  · exact ⟨h.congr rfl rfl, rfl, rfl⟩

theorem assocInsert (h : HashCounts s.stats s.assoc) (it : Ptr) (hv : UInt32) :
    HashCounts (s.assocInsert it hv).stats (s.assocInsert it hv).assoc ∧
      SameCounts s.stats (s.assocInsert it hv).stats := by
  have hi : HashCounts s.stats (s.assoc.insertChain it hv) :=
    h.congr (by simp [Assoc.insertChain]) (by simp [Assoc.insertChain])
  dsimp only [Store.assocInsert]
  split_ifs with ho
  · exact assocExpand (s := { s with assoc := s.assoc.insertChain it hv }) hi ho.1
  · exact ⟨hi, rfl, rfl⟩

theorem assocDelete (h : HashCounts s.stats s.assoc) (k : Key) (hv : UInt32) :
    HashCounts (s.assocDelete k hv).stats (s.assocDelete k hv).assoc := by
  unfold Store.assocDelete
  split
  · exact h
  · exact h.congr (by simp [Assoc.deleteChain]) (by simp [Assoc.deleteChain])

theorem endExpansion (h : HashCounts s.stats s.assoc) (he : s.assoc.expanding = true) :
    HashCounts s.endExpansion.stats s.endExpansion.assoc ∧
      SameCounts s.stats s.endExpansion.stats := by
  unfold Store.endExpansion
  split_ifs
  · refine ⟨⟨rfl, ?_⟩, rfl, rfl⟩
    show s.stats.hashBytes - _ = UInt64.ofNat (8 * Store.hashsize s.assoc.hashpower + 0)
    rw [h.bytes, Assoc.bytes, he, if_pos rfl, UInt64.ofNat_add, Nat.mul_comm _ 8, add_sub_cancel_right]
    rfl
  · exact ⟨h, rfl, rfl⟩

theorem migrateBucket (h : HashCounts s.stats s.assoc) :
    HashCounts s.migrateBucket.stats s.migrateBucket.assoc ∧
      SameCounts s.stats s.migrateBucket.stats := by
  unfold Store.migrateBucket
  split_ifs with he
  · obtain ⟨e, ht⟩ | ⟨l, e, ht⟩ := s.tryLock_cases (UInt32.ofNat s.assoc.expandBucket)
    · simp only [ht]
      exact ⟨h, rfl, rfl⟩
    · simp only [ht]
      exact endExpansion (s := { s with
        env := e, itemLocks := l :: s.itemLocks, assoc := s.assoc.moveBucket s.hv })
        (h.congr rfl rfl) he
  · exact ⟨h, rfl, rfl⟩

end HashCounts

end Mdb
