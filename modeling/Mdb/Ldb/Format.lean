import Mdb.Ldb.Batch

/-!
# Keys and their order

`db/dbformat.cc`, `util/comparator.cc`: a user key, followed by a sequence number and a type in eight
bytes, is an internal key. Internal keys are ordered by their user keys, bytewise, and then from the
newest to the oldest.

* `memcmp`, `sliceCompare`; `packSequenceAndType`, `internalKey`, `parseInternalKey`, `internalKeyCompare`;
  `lookupInternalKey`, `lookupMemtableKey`;
* `sliceCompare_eq`: bytewise comparison is the order of lists; `internalKeyCompare_eq`: an order of all
  strings;
* `internalKeyCompare_internalKey`, `parseInternalKey_internalKey`: on keys that were made of a user key
  and a number;
* `findShortestSeparator`, `findShortSuccessor`, of both comparators;
* **`separator_between`**, **`successor_ge`**: the keys that an index block gets in place of the last
  key of a block.
-/

namespace Mdb.Ldb

/-! ## Bytewise -/

/-- `memcmp`, up to the end of the shorter string. -/
def memcmp : Slice → Slice → Ordering
  | a :: as, b :: bs => (compare a b).then (memcmp as bs)
  | _, _ => .eq

/-- `Slice::compare`, `BytewiseComparatorImpl::Compare`. -/
def sliceCompare (a b : Slice) : Ordering :=
  if memcmp a b = .eq then compare a.length b.length else memcmp a b

theorem sliceCompare_eq (a b : Slice) : sliceCompare a b = compare a b := by
  induction a generalizing b with
  | nil => cases b <;> rfl
  | cons x a ih =>
    cases b with
    | nil => rfl
    | cons y b =>
      have hcons : compare (x :: a) (y :: b) = (compare x y).then (compare a b) :=
        List.compareLex_cons_cons
      rw [hcons, ← ih b, sliceCompare, sliceCompare, memcmp]
      cases compare x y <;> simp [Ordering.then, List.length_cons, Nat.compare_eq_ite_lt]

/-- `BytewiseComparatorImpl::FindShortestSeparator(start, limit)`. -/
def findShortestSeparator : Slice → Slice → Slice
  | a :: start, b :: limit =>
    if a = b then a :: findShortestSeparator start limit
    else if a < 0xff ∧ a + 1 < b then [a + 1]
    else a :: start
  | start, _ => start

/-- `BytewiseComparatorImpl::FindShortSuccessor(key)`. -/
def findShortSuccessor : Slice → Slice
  | [] => []
  | byte :: key => if byte ≠ 0xff then [byte + 1] else byte :: findShortSuccessor key

/-! ## Internal keys -/

/-- `kMaxSequenceNumber`. -/
def kMaxSequenceNumber : BitVec 64 := BitVec.ofNat 64 (2 ^ 56 - 1)

/-- `kValueTypeForSeek`. -/
def kValueTypeForSeek : ValueType := .value

/-- `PackSequenceAndType(seq, t)`. -/
def packSequenceAndType (seq : BitVec 64) (t : ValueType) : BitVec 64 := (seq <<< 8) ||| widen 64 t.toByte

/-- `AppendInternalKey`, `InternalKey(user_key, s, t)`. -/
def internalKey (userKey : Slice) (seq : BitVec 64) (t : ValueType) : Slice :=
  userKey ++ encodeFixed64 (packSequenceAndType seq t)

/-- `ExtractUserKey`. -/
def extractUserKey (key : Slice) : Slice := key.take (key.length - 8)

/-- The number at the end of an internal key. -/
def extractNumber (key : Slice) : BitVec 64 := decodeFixed64 (key.drop (key.length - 8))

/-- The `ValueType` of a byte, if it has one. -/
def ValueType.ofByte (c : BitVec 64) : Option ValueType :=
  if c = 0 then some .deletion else if c = 1 then some .value else none

/-- `ParseInternalKey`. -/
def parseInternalKey (key : Slice) : Option (Slice × BitVec 64 × ValueType) :=
  if key.length < 8 then none
  else
    (ValueType.ofByte (extractNumber key &&& 0xff)).map fun t =>
      (extractUserKey key, extractNumber key >>> 8, t)

/-- `InternalKeyComparator::Compare`. -/
def internalKeyCompare (a b : Slice) : Ordering :=
  let r := sliceCompare (extractUserKey a) (extractUserKey b)
  if r = .eq then
    if extractNumber b < extractNumber a then .lt
    else if extractNumber a < extractNumber b then .gt
    else .eq
  else r

/-- `LookupKey::internal_key()`. -/
def lookupInternalKey (userKey : Slice) (seq : BitVec 64) : Slice :=
  internalKey userKey seq kValueTypeForSeek

/-- `LookupKey::memtable_key()`. -/
def lookupMemtableKey (userKey : Slice) (seq : BitVec 64) : Slice :=
  encodeVarint32 (BitVec.ofNat 32 (userKey.length + 8)) ++ lookupInternalKey userKey seq

/-- `InternalKeyComparator::FindShortestSeparator(start, limit)`. -/
def internalFindShortestSeparator (start limit : Slice) : Slice :=
  let userStart := extractUserKey start
  let tmp := findShortestSeparator userStart (extractUserKey limit)
  if tmp.length < userStart.length ∧ sliceCompare userStart tmp = .lt then
    tmp ++ encodeFixed64 (packSequenceAndType kMaxSequenceNumber kValueTypeForSeek)
  else start

/-- `InternalKeyComparator::FindShortSuccessor(key)`. -/
def internalFindShortSuccessor (key : Slice) : Slice :=
  let userKey := extractUserKey key
  let tmp := findShortSuccessor userKey
  if tmp.length < userKey.length ∧ sliceCompare userKey tmp = .lt then
    tmp ++ encodeFixed64 (packSequenceAndType kMaxSequenceNumber kValueTypeForSeek)
  else key

/-! ## An order -/

theorem internalKeyCompare_eq : internalKeyCompare =
    compareLex (compareOn extractUserKey) fun a b => compareOn (fun k => (extractNumber k).toNat) b a := by
  funext a b
  rw [internalKeyCompare, compareLex, compareOn, compareOn, sliceCompare_eq]
  cases compare (extractUserKey a) (extractUserKey b) with
  | lt => rfl
  | gt => rfl
  | eq =>
    rw [if_pos rfl, Nat.compare_eq_ite_lt]
    rfl

instance : Std.TransCmp internalKeyCompare := internalKeyCompare_eq ▸ inferInstance

theorem extractUserKey_append (u : Slice) (n : BitVec 64) : extractUserKey (u ++ encodeFixed64 n) = u := by
  rw [extractUserKey, List.length_append]
  exact List.take_left' rfl

theorem extractUserKey_internalKey (u : Slice) (seq : BitVec 64) (t : ValueType) :
    extractUserKey (internalKey u seq t) = u := extractUserKey_append u _

theorem extractNumber_internalKey (u : Slice) (seq : BitVec 64) (t : ValueType) :
    extractNumber (internalKey u seq t) = packSequenceAndType seq t := by
  rw [extractNumber, internalKey, List.length_append,
    show u.length + (encodeFixed64 (packSequenceAndType seq t)).length - 8 = u.length from rfl,
    List.drop_left, ← List.append_nil (encodeFixed64 _), decodeFixed64_append]

/-- The type as a number. -/
def ValueType.toNat : ValueType → ℕ
  | .deletion => 0
  | .value => 1

theorem toNat_packSequenceAndType {seq : BitVec 64} (h : seq.toNat < 2 ^ 56) (t : ValueType) :
    (packSequenceAndType seq t).toNat = seq.toNat * 2 ^ 8 + t.toNat := by
  have hshift : (seq <<< 8).toNat = 2 ^ 8 * seq.toNat := by
    rw [BitVec.toNat_shiftLeft, Nat.shiftLeft_eq, Nat.mul_comm, Nat.mod_eq_of_lt (by omega)]
  have hbyte : (widen 64 t.toByte).toNat = t.toNat := by cases t <;> rfl
  have hlt : t.toNat < 2 ^ 8 := by cases t <;> decide
  rw [packSequenceAndType, BitVec.toNat_or, hshift, hbyte, ← Nat.two_pow_add_eq_or_of_lt hlt, Nat.mul_comm]

theorem internalKeyCompare_internalKey {u u' : Slice} {s s' : BitVec 64} (hs : s.toNat < 2 ^ 56)
    (hs' : s'.toNat < 2 ^ 56) (t t' : ValueType) :
    internalKeyCompare (internalKey u s t) (internalKey u' s' t') =
      (compare u u').then (compare (s'.toNat * 2 ^ 8 + t'.toNat) (s.toNat * 2 ^ 8 + t.toNat)) := by
  rw [internalKeyCompare_eq, compareLex, compareOn, compareOn, extractUserKey_internalKey,
    extractUserKey_internalKey, extractNumber_internalKey, extractNumber_internalKey,
    toNat_packSequenceAndType hs, toNat_packSequenceAndType hs']

theorem ofByte_packSequenceAndType {seq : BitVec 64} (h : seq.toNat < 2 ^ 56) (t : ValueType) :
    ValueType.ofByte (packSequenceAndType seq t &&& 0xff) = some t := by
  have hlt : t.toNat < 2 := by cases t <;> decide
  have htype : packSequenceAndType seq t &&& 0xff = BitVec.ofNat 64 t.toNat := by
    apply BitVec.eq_of_toNat_eq
    rw [BitVec.toNat_and, toNat_packSequenceAndType h, show (0xff : BitVec 64).toNat = 2 ^ 8 - 1 from rfl,
      Nat.and_two_pow_sub_one_eq_mod, BitVec.toNat_ofNat]
    omega
  rw [htype]
  cases t <;> rfl

theorem parseInternalKey_internalKey (u : Slice) {seq : BitVec 64} (h : seq.toNat < 2 ^ 56)
    (t : ValueType) : parseInternalKey (internalKey u seq t) = some (u, seq, t) := by
  have hlen : ¬ (internalKey u seq t).length < 8 := by
    rw [internalKey, List.length_append]
    exact not_lt.mpr (Nat.le_add_left 8 _)
  have hlt : t.toNat < 2 := by cases t <;> decide
  have hseq : packSequenceAndType seq t >>> 8 = seq := by
    apply BitVec.eq_of_toNat_eq
    rw [BitVec.toNat_ushiftRight, Nat.shiftRight_eq_div_pow, toNat_packSequenceAndType h]
    omega
  rw [parseInternalKey, if_neg hlen, extractNumber_internalKey, extractUserKey_internalKey,
    ofByte_packSequenceAndType h, hseq, Option.map_some]

/-! ## Keys between two others -/

theorem compare_cons_self (a : UInt8) (x y : Slice) : compare (a :: x) (a :: y) = compare x y := by
  have hcons : compare (a :: x) (a :: y) = (compare a a).then (compare x y) := List.compareLex_cons_cons
  rw [hcons, Std.ReflOrd.compare_self]
  rfl

theorem compare_cons_of_lt {a b : UInt8} (h : a < b) (x y : Slice) : compare (a :: x) (b :: y) = .lt := by
  have hcons : compare (a :: x) (b :: y) = (compare a b).then (compare x y) := List.compareLex_cons_cons
  rw [hcons, show compare a b = .lt from if_pos h]
  rfl

/-- A separator that is shorter is before the limit. -/
theorem findShortestSeparator_lt (start limit : Slice)
    (h : (findShortestSeparator start limit).length < start.length) :
    compare (findShortestSeparator start limit) limit = .lt := by
  fun_induction findShortestSeparator start limit with
  | case1 a start limit ih =>
    rw [compare_cons_self]
    exact ih (by simpa using h)
  | case2 a start b limit hne hlt => exact compare_cons_of_lt hlt.2 _ _
  | case3 | case4 => exact absurd h (lt_irrefl _)

/-- Internal keys of different user keys. -/
theorem internalKeyCompare_of_lt {a b : Slice} (h : compare (extractUserKey a) (extractUserKey b) = .lt) :
    internalKeyCompare a b = .lt := by
  rw [internalKeyCompare_eq, compareLex, compareOn, h]
  rfl

/-- **A separator lies between the keys it separates.** -/
theorem separator_between {start limit : Slice} (h : internalKeyCompare start limit = .lt) :
    (internalKeyCompare start (internalFindShortestSeparator start limit)).isLE = true ∧
      internalKeyCompare (internalFindShortestSeparator start limit) limit = .lt := by
  unfold internalFindShortestSeparator
  dsimp only
  split_ifs with hshort
  · obtain ⟨hlen, hlt⟩ := hshort
    rw [sliceCompare_eq] at hlt
    constructor
    · rw [internalKeyCompare_of_lt (by rw [extractUserKey_append]; exact hlt)]
      rfl
    · exact internalKeyCompare_of_lt (by rw [extractUserKey_append]; exact findShortestSeparator_lt _ _ hlen)
  · exact ⟨Std.ReflCmp.isLE_rfl, h⟩

/-- **A successor is not before the key.** -/
theorem successor_ge (key : Slice) :
    (internalKeyCompare key (internalFindShortSuccessor key)).isLE = true := by
  unfold internalFindShortSuccessor
  dsimp only
  split_ifs with hshort
  · obtain ⟨-, hlt⟩ := hshort
    rw [sliceCompare_eq] at hlt
    rw [internalKeyCompare_of_lt (by rw [extractUserKey_append]; exact hlt)]
    rfl
  · exact Std.ReflCmp.isLE_rfl

end Mdb.Ldb
