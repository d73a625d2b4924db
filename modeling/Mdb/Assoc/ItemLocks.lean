import Mdb.Store.Trace

/-!
# The item lock of a migration

`AssocMaintainer::Run` moves a bucket of the old table under one item lock. There are `2^13` locks,
`2^(p-1)` old buckets and `2^p` new ones, numbered by the low bits of the same hash value.

* `Assoc.InBucket`: the hash values of the bucket that is moved next; `Assoc.movesTo`: where an item
  goes; `Assoc.Migrates`: the chains that are read or written;
* **`TableOk.table_moveBucket`**: no other chain changes;
* **`migration_lock_iff`**: whoever looks at such a chain, before or after the move, has taken the
  lock of the bucket; and the items go to the two buckets they are looked for in, unless there are
  `2^32` buckets and the `int` that holds the number of the upper one is negative.
-/

namespace Mdb

open Buckets

namespace Assoc

variable (a : Assoc)

/-- `hv` is the hash value of an item of the bucket that is moved next. -/
def InBucket (hv : UInt32) : Prop := hv.toNat &&& Store.hashmask (a.hashpower - 1) = a.expandBucket

instance (hv : UInt32) : Decidable (a.InBucket hv) := inferInstanceAs (Decidable (_ = _))

/-- The index in `primary_hashtable_` an item of the bucket is moved to. -/
def movesTo (hv : UInt32) : ℕ := intIndex (hv.toNat &&& Store.hashmask a.hashpower)

/-- **The chains a migration reads or writes**: the old bucket, and those its items are moved to. -/
def Migrates : Slot → Prop
  | .old b => b = a.expandBucket
  | .primary b => ∃ hv, a.InBucket hv ∧ a.movesTo hv = b

variable {a}

theorem inBucket_iff {hv : UInt32} :
    a.InBucket hv ↔ hv.toNat % 2 ^ (a.hashpower - 1) = a.expandBucket := by
  rw [InBucket, and_hashmask]

theorem movesTo_eq (hv : UInt32) : a.movesTo hv = intIndex (hv.toNat % 2 ^ a.hashpower) := by
  rw [movesTo, and_hashmask]

theorem moveBucket_hashpower (hv : Ptr → UInt32) : (a.moveBucket hv).hashpower = a.hashpower := rfl

/-! ## The two buckets -/

theorem mod_two_pow_pred {n p : ℕ} (hp : 1 ≤ p) :
    n % 2 ^ p = n % 2 ^ (p - 1) ∨ n % 2 ^ p = n % 2 ^ (p - 1) + 2 ^ (p - 1) := by
  obtain ⟨q, rfl⟩ : ∃ q, p = q + 1 := ⟨p - 1, by omega⟩
  rw [Nat.add_sub_cancel, pow_succ, Nat.mod_mul]
  rcases Nat.mod_two_eq_zero_or_one (n / 2 ^ q) with h | h
  · left
    simp [h]
  · right
    simp [h]

theorem intIndex_of_lt {n : ℕ} (h : n < 2 ^ 31) : intIndex n = n := if_pos h

/-- An `int` whose index fits 32 bits is not negative. -/
theorem eq_of_intIndex_lt {n m : ℕ} (h : intIndex n = m) (hm : m < 2 ^ 32) : n = m := by
  unfold intIndex at h
  split_ifs at h
  · exact h
  · omega

/-- **An item goes to one of the two buckets** it will be looked for in, as long as an `int` can
number them. -/
theorem movesTo_cases {hv : UInt32} (h : a.InBucket hv) (hp : 1 ≤ a.hashpower)
    (hlt : hv.toNat % 2 ^ a.hashpower < 2 ^ 31) :
    a.movesTo hv = a.expandBucket ∨ a.movesTo hv = a.expandBucket + 2 ^ (a.hashpower - 1) := by
  rw [inBucket_iff] at h
  rw [movesTo_eq, intIndex_of_lt hlt, ← h]
  exact mod_two_pow_pred hp

/-- **A chain of a migration is searched only for hash values of the bucket**, wherever the migration
stands. -/
theorem inBucket_of_migrates {a' : Assoc} (hpow : a'.hashpower = a.hashpower) {hv : UInt32}
    (h : a.Migrates (a'.slot hv)) : a.InBucket hv := by
  rw [slot, hpow, and_hashmask, and_hashmask] at h
  rw [inBucket_iff]
  split_ifs at h with hc
  · exact h
  · obtain ⟨hv', hin, hmov⟩ := h
    rw [inBucket_iff] at hin
    rw [movesTo_eq] at hmov
    have hlt : hv.toNat % 2 ^ a.hashpower < 2 ^ 32 := (Nat.mod_le _ _).trans_lt hv.toNat_lt
    have hmod := eq_of_intIndex_lt hmov hlt
    have hdvd : 2 ^ (a.hashpower - 1) ∣ 2 ^ a.hashpower := pow_dvd_pow 2 (Nat.sub_le _ _)
    rw [← hin, ← Nat.mod_mod_of_dvd hv'.toNat hdvd, hmod, Nat.mod_mod_of_dvd _ hdvd]

end Assoc

namespace TableOk

variable {key : Ptr → Key} {hash : Key → UInt32} {a : Assoc} {items : List Ptr}

theorem inBucket (h : TableOk key hash a items) (he : a.expanding = true) {x : Ptr}
    (hx : x ∈ a.old a.expandBucket) : a.InBucket (hash (key x)) := by
  have hmem : x ∈ a.table (.old a.expandBucket) := by simpa [Assoc.table, he] using hx
  have hslot := ((h.holds.mem_iff _ x).1 hmem).2
  apply Assoc.inBucket_of_migrates rfl
  rw [hslot]
  exact rfl

/-- **A migration changes no chain but those it migrates.** -/
theorem table_moveBucket (h : TableOk key hash a items) (he : a.expanding = true) {sl : Slot}
    (hsl : ¬ a.Migrates sl) : (a.moveBucket fun x => hash (key x)).table sl = a.table sl := by
  cases sl with
  | old b =>
    have hb : b ≠ a.expandBucket := hsl
    simp [Assoc.table, Assoc.moveBucket, hb]
  | primary b =>
    apply foldl_push_of_forall_ne
    intro x hx hxb
    exact hsl ⟨hash (key x), h.inBucket he hx, hxb⟩

end TableOk

/-! ## The lock -/

theorem Store.itemLock_eq_mod (hv : UInt32) : itemLock hv = hv.toNat % 2 ^ 13 := and_hashmask _ _

/-- **The hash values of a bucket share its item lock**, as there are fewer locks than buckets. -/
theorem Assoc.InBucket.itemLock {a : Assoc} {hv : UInt32} (h : a.InBucket hv)
    (hp : 14 ≤ a.hashpower) : Store.itemLock hv = Store.itemLock (UInt32.ofNat a.expandBucket) := by
  rw [Assoc.inBucket_iff] at h
  have hlt : a.expandBucket < 2 ^ 32 := h ▸ (Nat.mod_le _ _).trans_lt hv.toNat_lt
  have hdvd : 2 ^ 13 ∣ 2 ^ (a.hashpower - 1) := pow_dvd_pow 2 (by omega)
  rw [Store.itemLock_eq_mod, Store.itemLock_eq_mod, UInt32.toNat_ofNat_of_lt' hlt, ← h,
    Nat.mod_mod_of_dvd _ hdvd]

theorem Store.migrateBucket_hashpower (s : Store) :
    s.migrateBucket.assoc.hashpower = s.assoc.hashpower := by
  unfold Store.migrateBucket
  split_ifs
  · obtain ⟨e, ht⟩ | ⟨l, e, ht⟩ := s.tryLock_cases (UInt32.ofNat s.assoc.expandBucket)
    · simp only [ht]
    · simp only [ht, Store.endExpansion, Store.tryLockUnlock]
      split_ifs <;> rfl
  · rfl

/-- **One item lock covers a migration**: a call for `hv` that looks at a chain of the migration,
before it or after `expand_bucket_` was advanced, holds the lock that was tried for the bucket; and
an item with hash value `hv` goes to one of two buckets, unless it belongs to the upper half of
`2^32` buckets. -/
theorem migration_lock_iff (s : Store) (hv : UInt32) (hlo : 16 ≤ s.assoc.hashpower)
    (hhi : s.assoc.hashpower ≤ 32) :
    ((s.assoc.Migrates (s.assoc.slot hv) ∨ s.assoc.Migrates ((s.assoc.moveBucket s.hv).slot hv) ∨
        s.assoc.Migrates (s.migrateBucket.assoc.slot hv) →
      Store.itemLock hv = Store.itemLock (UInt32.ofNat s.assoc.expandBucket)) ∧
    (s.assoc.InBucket hv → s.assoc.movesTo hv = s.assoc.expandBucket ∨
      s.assoc.movesTo hv = s.assoc.expandBucket + 2 ^ (s.assoc.hashpower - 1))) ↔
    ¬ (s.assoc.hashpower = 32 ∧ s.assoc.InBucket hv ∧ 2 ^ 31 ≤ hv.toNat) := by
  constructor
  · rintro ⟨-, hmov⟩ ⟨hp, hin, hbig⟩
    have hhv : hv.toNat % 2 ^ 32 = hv.toNat := Nat.mod_eq_of_lt hv.toNat_lt
    have hmov := hmov hin
    rw [Assoc.inBucket_iff, hp] at hin
    rw [Assoc.movesTo_eq, hp, hhv, intIndex, if_neg (not_lt.2 hbig)] at hmov
    have := hv.toNat_lt
    omega
  · intro h
    constructor
    · intro hm
      apply Assoc.InBucket.itemLock _ (by omega)
      rcases hm with hm | hm | hm
      · exact Assoc.inBucket_of_migrates rfl hm
      · exact Assoc.inBucket_of_migrates (Assoc.moveBucket_hashpower s.hv) hm
      · exact Assoc.inBucket_of_migrates s.migrateBucket_hashpower hm
    · intro hin
      apply Assoc.movesTo_cases hin (by omega)
      by_cases hp : s.assoc.hashpower = 32
      · rw [hp, Nat.mod_eq_of_lt hv.toNat_lt]
        by_contra hbig
        exact h ⟨hp, hin, not_lt.1 hbig⟩
      · have hpow : 2 ^ s.assoc.hashpower ≤ 2 ^ 31 := Nat.pow_le_pow_right (by norm_num) (by omega)
        exact (Nat.mod_lt _ (by positivity)).trans_le hpow

/-- An expansion to `2^p` buckets is about to move bucket 0, where the item at address 64 is; every
key hashes to `2^31`. -/
def movingStore (p : ℕ) : Store :=
  { Store.initial p (fun _ => 2147483648) (.initial 0) .failing with
    assoc := { Assoc.initial p with
      expanding := true, old := fun b => if b = 0 then [.chunk 64] else [] } }

/-- In the first expansion the item with hash value `2^31` goes to bucket 0. -/
theorem migration_lock_first : (movingStore 17).assoc.InBucket 2147483648 ∧
    ((movingStore 17).assoc.movesTo 2147483648 = 0 ∨
      (movingStore 17).assoc.movesTo 2147483648 = 0 + 2 ^ 16) :=
  ⟨by decide, ((migration_lock_iff (movingStore 17) 2147483648 (by decide) (by decide)).2
    (by decide)).2 (by decide)⟩

/-- **The upper bucket of `2^32` is missed**: the item is put at the index an `int` of value `-2^31`
gives, and `AssocFind` does not find it any more. -/
theorem migration_misses_bucket : (movingStore 32).assoc.InBucket 2147483648 ∧
    (movingStore 32).assoc.movesTo 2147483648 ≠ 0 ∧
    (movingStore 32).assoc.movesTo 2147483648 ≠ 0 + 2 ^ 31 ∧
    (movingStore 32).assocFind .empty 2147483648 = some (.chunk 64) ∧
    { movingStore 32 with assoc := (movingStore 32).assoc.moveBucket (movingStore 32).hv }.assocFind
      .empty 2147483648 = none := by
  decide

end Mdb
