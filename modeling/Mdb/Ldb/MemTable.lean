import Mdb.Ldb.Format
import Mdb.Ldb.SkipList

/-!
# Memtables

`db/memtable.cc`: the newest updates, as strings in a skip list. An entry is an internal key and a
value, each after its length; the comparator reads the key back.

* `MemTable`, with `add` and `get`; `memCompare`, `readEntry`;
* `Entry`: an update with its sequence number; `Answers es u s r`: `r` is what is known of the key `u`
  at the sequence number `s`, after the updates `es`;
* `Tabled m es`: the memtable `m` holds `es`; **`Tabled.add`**, **`Tabled.get`**;
* **`memtable_snapshot`**: a reader that looks for a key at a sequence number is told what was true when
  that number was the last, whatever is inserted while it searches.
-/

namespace Mdb.Ldb

/-- `GetLengthPrefixedSlice(data)` of a memtable, which assumes that the data are not corrupted. -/
def memSlice (data : Slice) : Slice :=
  match getVarint32 data with
  | none => []
  | some (len, p) => p.take len.toNat

/-- `MemTable::KeyComparator`. -/
def memCompare (a b : Slice) : Ordering := internalKeyCompare (memSlice a) (memSlice b)

instance : Std.TransCmp memCompare where
  eq_swap {a b} := (Std.OrientedCmp.eq_swap : internalKeyCompare (memSlice a) (memSlice b) = _)
  isLE_trans {a _ c} h h' :=
    (Std.TransCmp.isLE_trans h h' : (internalKeyCompare (memSlice a) (memSlice c)).isLE = true)

/-- A `MemTable`. -/
structure MemTable where
  table : SkipList Slice

/-- The bytes that `Add` writes. -/
def encodeEntry (seq : BitVec 64) (t : ValueType) (key value : Slice) : Slice :=
  encodeVarint32 (BitVec.ofNat 32 (key.length + 8)) ++ key ++
    encodeFixed64 ((seq <<< 8) ||| widen 64 t.toByte) ++
    encodeVarint32 (BitVec.ofNat 32 value.length) ++ value

/-- What `Get` makes of the entry it is led to: `none` if the entry is of another key, and then what
it says about the key. -/
def readEntry (userKey entry : Slice) : Option (Option Slice) :=
  match getVarint32 entry with
  | none => none
  | some (keyLength, keyPtr) =>
    if sliceCompare (keyPtr.take (keyLength.toNat - 8)) userKey = .eq then
      match ValueType.ofByte (decodeFixed64 (keyPtr.drop (keyLength.toNat - 8)) &&& 0xff) with
      | some .value => some (some (memSlice (keyPtr.drop keyLength.toNat)))
      | some .deletion => some none
      | none => none
    else none

namespace MemTable

/-- The constructor. -/
def new : MemTable := ⟨.new []⟩

/-- `Add(s, type, key, value)`. -/
def add (m : MemTable) (seq : BitVec 64) (t : ValueType) (key value : Slice) : Option MemTable :=
  (m.table.insert memCompare (encodeEntry seq t key value)).map MemTable.mk

/-- `Get(key, value, s)` for `LookupKey(userKey, seq)`. -/
def get (m : MemTable) (userKey : Slice) (seq : BitVec 64) : Option (Option Slice) :=
  match m.table.findGreaterOrEqual memCompare (lookupMemtableKey userKey seq) with
  | some (some n, _) => readEntry userKey (m.table.key n)
  | _ => none

end MemTable

/-! ## Entries -/

/-- An update with its sequence number. -/
structure Entry where
  seq : BitVec 64
  type : ValueType
  key : Slice
  value : Slice

namespace Entry

/-- The bytes of an entry. -/
def encode (e : Entry) : Slice := encodeEntry e.seq e.type e.key e.value

/-- Sequence numbers have 56 bits, lengths 32. -/
structure Fits (e : Entry) : Prop where
  seq : e.seq.toNat < 2 ^ 56
  key : e.key.length + 8 < 2 ^ 32
  value : e.value.length < 2 ^ 32

/-- What the entry says about its key. -/
def content (e : Entry) : Option Slice :=
  match e.type with
  | .value => some e.value
  | .deletion => none

end Entry

theorem toNat_ofNat_length {n : ℕ} (h : n < 2 ^ 32) : (BitVec.ofNat 32 n).toNat = n := by
  rw [BitVec.toNat_ofNat, Nat.mod_eq_of_lt h]

/-- A string after its length is read back. -/
theorem memSlice_append {data rest : Slice} (h : data.length < 2 ^ 32) :
    memSlice (encodeVarint32 (BitVec.ofNat 32 data.length) ++ (data ++ rest)) = data := by
  rw [memSlice, getVarint32_append]
  dsimp only
  rw [toNat_ofNat_length h, List.take_left]

theorem memSlice_self {data : Slice} (h : data.length < 2 ^ 32) :
    memSlice (encodeVarint32 (BitVec.ofNat 32 data.length) ++ data) = data := by
  have hall : memSlice (encodeVarint32 (BitVec.ofNat 32 data.length) ++ (data ++ [])) = data :=
    memSlice_append h
  rwa [List.append_nil] at hall

theorem length_internalKey (u : Slice) (s : BitVec 64) (t : ValueType) :
    (internalKey u s t).length = u.length + 8 := by
  rw [internalKey, List.length_append]
  rfl

theorem Entry.encode_eq (e : Entry) : e.encode =
    encodeVarint32 (BitVec.ofNat 32 (e.key.length + 8)) ++ (internalKey e.key e.seq e.type ++
      (encodeVarint32 (BitVec.ofNat 32 e.value.length) ++ e.value)) := by
  rw [Entry.encode, encodeEntry, internalKey, packSequenceAndType]
  simp only [List.append_assoc]

theorem memSlice_encode {e : Entry} (h : e.Fits) : memSlice e.encode = internalKey e.key e.seq e.type := by
  rw [Entry.encode_eq, ← length_internalKey e.key e.seq e.type]
  exact memSlice_append (by rw [length_internalKey]; exact h.key)

theorem memSlice_lookupMemtableKey {u : Slice} (h : u.length + 8 < 2 ^ 32) (s : BitVec 64) :
    memSlice (lookupMemtableKey u s) = internalKey u s kValueTypeForSeek := by
  rw [lookupMemtableKey, lookupInternalKey, ← length_internalKey u s kValueTypeForSeek]
  refine memSlice_self ?_
  rw [length_internalKey]
  exact h

/-- What `Get` makes of an entry. -/
theorem readEntry_encode {e : Entry} (h : e.Fits) (u : Slice) :
    readEntry u e.encode = if e.key = u then some e.content else none := by
  have htake : ∀ rest : Slice, (internalKey e.key e.seq e.type ++ rest).take (e.key.length + 8 - 8) = e.key := by
    intro rest
    rw [internalKey, List.append_assoc, Nat.add_sub_cancel]
    exact List.take_left
  have hdrop : ∀ rest : Slice, (internalKey e.key e.seq e.type ++ rest).drop (e.key.length + 8 - 8) =
      encodeFixed64 (packSequenceAndType e.seq e.type) ++ rest := by
    intro rest
    rw [internalKey, List.append_assoc, Nat.add_sub_cancel]
    exact List.drop_left
  have hrest : ∀ rest : Slice, (internalKey e.key e.seq e.type ++ rest).drop (e.key.length + 8) = rest :=
    fun rest => List.drop_left' (length_internalKey _ _ _)
  rw [readEntry, Entry.encode_eq, getVarint32_append]
  dsimp only
  rw [toNat_ofNat_length h.key, htake, hdrop, hrest, decodeFixed64_append, ofByte_packSequenceAndType h.seq,
    sliceCompare_eq, Entry.content]
  by_cases hu : e.key = u
  · rw [if_pos hu, if_pos (by rw [hu]; exact Std.ReflCmp.compare_self)]
    cases htype : e.type with
    | deletion => rfl
    | value =>
      dsimp only
      rw [memSlice_self h.value]
  · rw [if_neg hu, if_neg fun he => hu (Std.LawfulEqOrd.eq_of_compare he)]

/-! ## What is known of a key -/

/-- **What is known of the key `u` at the sequence number `s`**, after the updates `es`: nothing, or
what the newest of the updates up to `s` made of it. -/
inductive Answers (es : List Entry) (u : Slice) (s : BitVec 64) : Option (Option Slice) → Prop
  | none (h : ∀ e ∈ es, e.key = u → s.toNat < e.seq.toNat) : Answers es u s none
  | some {e : Entry} (he : e ∈ es) (hkey : e.key = u) (hseq : e.seq.toNat ≤ s.toNat)
      (hnewest : ∀ e' ∈ es, e'.key = u → e'.seq.toNat ≤ s.toNat → e'.seq.toNat ≤ e.seq.toNat) :
      Answers es u s (some e.content)

/-- Updates after `s` do not matter. -/
theorem Answers.of_append {es es' : List Entry} {u : Slice} {s : BitVec 64} {r : Option (Option Slice)}
    (h : Answers (es ++ es') u s r) (hnew : ∀ e ∈ es', s.toNat < e.seq.toNat) : Answers es u s r := by
  cases h with
  | none h => exact .none fun e he => h e (List.mem_append_left _ he)
  | @some e he hkey hseq hnewest =>
    have hold : e ∈ es := by
      rcases List.mem_append.mp he with he | he
      · exact he
      · exact absurd (hnew e he) (not_lt.mpr hseq)
    exact .some hold hkey hseq fun e' he' => hnewest e' (List.mem_append_left _ he')

theorem Answers.perm {es es' : List Entry} {u : Slice} {s : BitVec 64} {r : Option (Option Slice)}
    (h : Answers es u s r) (hp : es.Perm es') : Answers es' u s r := by
  cases h with
  | none h => exact .none fun e he => h e (hp.mem_iff.mpr he)
  | some he hkey hseq hnewest =>
    exact .some (hp.mem_iff.mp he) hkey hseq fun e' he' => hnewest e' (hp.mem_iff.mpr he')

/-- Two entries in the order of a memtable. -/
theorem memCompare_encode {e e' : Entry} (h : e.Fits) (h' : e'.Fits) :
    memCompare e.encode e'.encode = (compare e.key e'.key).then
      (compare (e'.seq.toNat * 2 ^ 8 + e'.type.toNat) (e.seq.toNat * 2 ^ 8 + e.type.toNat)) := by
  rw [memCompare, memSlice_encode h, memSlice_encode h', internalKeyCompare_internalKey h.seq h'.seq]

/-- An entry and a key that is looked for. -/
theorem memCompare_lookup {e : Entry} (h : e.Fits) {u : Slice} (hu : u.length + 8 < 2 ^ 32)
    {s : BitVec 64} (hs : s.toNat < 2 ^ 56) :
    memCompare e.encode (lookupMemtableKey u s) = (compare e.key u).then
      (compare (s.toNat * 2 ^ 8 + 1) (e.seq.toNat * 2 ^ 8 + e.type.toNat)) := by
  rw [memCompare, memSlice_encode h, memSlice_lookupMemtableKey hu, internalKeyCompare_internalKey h.seq hs]
  rfl

theorem ValueType.toNat_le (t : ValueType) : t.toNat ≤ 1 := by cases t <;> decide

/-- An entry of the key is before the one that is looked for if it is newer. -/
theorem memCompare_lookup_lt {e : Entry} (h : e.Fits) (hu : e.key.length + 8 < 2 ^ 32)
    {s : BitVec 64} (hs : s.toNat < 2 ^ 56) :
    memCompare e.encode (lookupMemtableKey e.key s) = .lt ↔ s.toNat < e.seq.toNat := by
  have ht := e.type.toNat_le
  rw [memCompare_lookup h hu hs, Std.ReflOrd.compare_self, Ordering.eq_then, Nat.compare_eq_lt]
  omega

/-- **The first entry that is not before a key that is looked for** tells what is known of it. -/
theorem seekKey_answers {es : List Entry} (hfits : ∀ e ∈ es, e.Fits) {ks : List Slice}
    (hperm : ks.Perm (es.map Entry.encode)) (hsorted : ks.Pairwise fun k k' => memCompare k k' = .lt)
    {u : Slice} (hu : u.length + 8 < 2 ^ 32) {s : BitVec 64} (hs : s.toNat < 2 ^ 56) :
    Answers es u s ((SkipList.seekKey memCompare (lookupMemtableKey u s) ks).bind (readEntry u)) := by
  -- an entry of the key that is old enough is among those that are not before it
  have hafter : ∀ e ∈ es, e.key = u → e.seq.toNat ≤ s.toNat →
      e.encode ∈ ks.filter fun k => !(memCompare k (lookupMemtableKey u s)).isLT := by
    rintro e he rfl hle
    have hnot := mt (memCompare_lookup_lt (hfits e he) hu hs).mp (not_lt.mpr hle)
    rw [List.mem_filter, Bool.not_eq_true', ← Bool.not_eq_true, Ordering.isLT_iff_eq_lt]
    exact ⟨hperm.mem_iff.mpr (List.mem_map_of_mem he), hnot⟩
  rw [SkipList.seekKey]
  have hsub := hsorted.sublist
    (List.filter_sublist (p := fun k => !(memCompare k (lookupMemtableKey u s)).isLT))
  cases hc : ks.filter fun k => !(memCompare k (lookupMemtableKey u s)).isLT with
  | nil =>
    rw [hc] at hafter
    refine .none fun e he hkey => ?_
    by_contra hle
    exact absurd (hafter e he hkey (not_lt.mp hle)) List.not_mem_nil
  | cons k rest =>
    have hk : k ∈ ks.filter fun k => !(memCompare k (lookupMemtableKey u s)).isLT :=
      hc ▸ List.mem_cons_self
    rw [List.mem_filter, Bool.not_eq_true', ← Bool.not_eq_true, Ordering.isLT_iff_eq_lt] at hk
    obtain ⟨e, he, rfl⟩ := List.mem_map.mp (hperm.mem_iff.mp hk.1)
    rw [hc] at hafter hsub
    -- nothing old enough comes in front of it
    have hfirst : ∀ e' ∈ es, e'.key = u → e'.seq.toNat ≤ s.toNat →
        (memCompare e.encode e'.encode).isLE = true := by
      intro e' he' hkey hle
      rcases List.mem_cons.mp (hafter e' he' hkey hle) with heq | hmem
      · rw [heq]
        exact Std.ReflCmp.isLE_rfl
      · rw [(List.pairwise_cons.mp hsub).1 _ hmem]
        rfl
    rw [List.head?_cons, Option.bind_some, readEntry_encode (hfits e he)]
    by_cases hkey : e.key = u
    · subst hkey
      rw [if_pos rfl]
      refine .some he rfl (not_lt.mp (mt (memCompare_lookup_lt (hfits e he) hu hs).mpr hk.2)) ?_
      intro e' he' hkey' hle
      have hfst := hfirst e' he' hkey' hle
      rw [memCompare_encode (hfits e he) (hfits e' he'), hkey', Std.ReflOrd.compare_self,
        Ordering.eq_then, Nat.isLE_compare] at hfst
      have ht := e.type.toNat_le
      have ht' := e'.type.toNat_le
      omega
    · rw [if_neg hkey]
      refine .none fun e' he' hkey' => ?_
      by_contra hle
      have hfst := hfirst e' he' hkey' (not_lt.mp hle)
      have hlt := hk.2
      rw [memCompare_encode (hfits e he) (hfits e' he'), hkey'] at hfst
      rw [memCompare_lookup (hfits e he) hu hs] at hlt
      cases hcmp : compare e.key u with
      | lt =>
        rw [hcmp] at hlt
        exact hlt rfl
      | eq => exact hkey (Std.LawfulEqOrd.eq_of_compare hcmp)
      | gt =>
        rw [hcmp] at hfst
        cases hfst

/-! ## One thread -/

/-- **The memtable `m` holds the updates `es`.** -/
structure Tabled (m : MemTable) (es : List Entry) : Prop where
  fits : ∀ e ∈ es, e.Fits
  exists_chain : ∃ chain, SkipList.Inv memCompare m.table chain ∧
    (SkipList.keys m.table chain).Perm (es.map Entry.encode)

theorem tabled_new : Tabled .new [] :=
  ⟨fun _ he => absurd he List.not_mem_nil, fun _ => [], SkipList.inv_new [], .refl _⟩

theorem insertKey_perm {K : Type} (cmp : K → K → Ordering) (key : K) (ks : List K) :
    (SkipList.insertKey cmp key ks).Perm (key :: ks) := by
  rw [SkipList.insertKey]
  refine List.perm_middle.trans (.cons key ?_)
  exact List.filter_append_perm (fun k => (cmp k key).isLT) ks

/-- Updates with different numbers have different places. -/
theorem memCompare_ne_eq {e e' : Entry} (h : e.Fits) (h' : e'.Fits) (hne : e.seq ≠ e'.seq) :
    memCompare e.encode e'.encode ≠ .eq := by
  intro heq
  rw [memCompare_encode h h', Ordering.then_eq_eq, Nat.compare_eq_eq] at heq
  have ht := e.type.toNat_le
  have ht' := e'.type.toNat_le
  exact hne (BitVec.eq_of_toNat_eq (by omega))

/-- **`Add` adds an update**, if its number is new. -/
theorem Tabled.add {m : MemTable} {es : List Entry} (h : Tabled m es) {e : Entry} (he : e.Fits)
    (hnew : ∀ e' ∈ es, e'.seq ≠ e.seq) :
    ∃ m', m.add e.seq e.type e.key e.value = some m' ∧ Tabled m' (e :: es) := by
  obtain ⟨chain, hinv, hperm⟩ := h.exists_chain
  have habsent : SkipList.Absent memCompare m.table chain e.encode := by
    intro n hn
    have hkey : m.table.key n ∈ SkipList.keys m.table chain := List.mem_map_of_mem hn
    obtain ⟨e', he', heq⟩ := List.mem_map.mp (hperm.mem_iff.mp hkey)
    rw [← heq]
    exact memCompare_ne_eq (h.fits e' he') he (hnew e' he')
  obtain ⟨l, chain', hins, hinv', hkeys⟩ := SkipList.insert_spec hinv habsent
  refine ⟨⟨l⟩, ?_, ?_, chain', hinv', ?_⟩
  · rw [MemTable.add, ← Entry.encode, hins, Option.map_some]
  · intro e' he'
    rcases List.mem_cons.mp he' with rfl | he'
    · exact he
    · exact h.fits e' he'
  · rw [hkeys, List.map_cons]
    exact (insertKey_perm _ _ _).trans (.cons _ hperm)

/-- **`Get` tells what is known of a key.** -/
theorem Tabled.get {m : MemTable} {es : List Entry} (h : Tabled m es) {u : Slice}
    (hu : u.length + 8 < 2 ^ 32) {s : BitVec 64} (hs : s.toNat < 2 ^ 56) :
    Answers es u s (m.get u s) := by
  obtain ⟨chain, hinv, hperm⟩ := h.exists_chain
  obtain ⟨prev, hfind, -⟩ := SkipList.findGreaterOrEqual_spec hinv (lookupMemtableKey u s)
  have hanswers := seekKey_answers h.fits hperm (List.pairwise_map.mpr hinv.sorted) hu hs
  rw [← SkipList.map_first] at hanswers
  rw [MemTable.get, hfind]
  cases hn : ((chain 0).filter fun n => !m.table.before memCompare (lookupMemtableKey u s) n).head? with
  | none =>
    rw [hn] at hanswers
    exact hanswers
  | some n =>
    rw [hn] at hanswers
    exact hanswers

/-! ## Many threads -/

/-- The keys that were inserted, the last one first. -/
def inserted {K : Type} : List (SkipEvent K) → List K
  | [] => []
  | .insert key :: evs => inserted evs ++ [key]
  | .seek _ _ :: evs | .silent :: evs => inserted evs

theorem inserted_append {K : Type} (as bs : List (SkipEvent K)) :
    inserted (as ++ bs) = inserted bs ++ inserted as := by
  induction as with
  | nil => exact (List.append_nil _).symm
  | cons ev as ih =>
    cases ev with
    | insert key => rw [List.cons_append, inserted, inserted, ih, List.append_assoc]
    | seek | silent => exact ih

/-- A set holds what was inserted. -/
theorem perm_inserted {K : Type} {cmp : K → K → Ordering} {evs : List (SkipEvent K)} {ks : List K}
    (h : Run.Steps (SetStep cmp) [] evs ks) : ks.Perm (inserted evs) := by
  refine h.history (I := fun evs ks => ks.Perm (inserted evs)) (.refl _) fun as ks ev ks' hI hs => ?_
  rw [inserted_append]
  cases hs with
  | insert key => exact (insertKey_perm cmp key ks).trans (.cons key hI)
  | seek | silent => exact hI

/-- **A reader sees its snapshot.** One thread inserts entries, others search. If a reader looks for the
key `u` at the sequence number `s`, and all that was inserted after `es` is newer than `s`, then it is
told what was known at `s`. -/
theorem memtable_snapshot {ι : Type} [DecidableEq ι] {any : Slice} {as bs : List (SkipEvent Slice)}
    {st : SkipState ι Slice} {u : Slice} {s : BitVec 64} {r : Option Slice} {es es' : List Entry}
    (h : Run.Steps (SkipStep memCompare) ⟨.new any, none, fun _ => none⟩
      (as ++ bs ++ [.seek (lookupMemtableKey u s) r]) st)
    (has : inserted as = es.map Entry.encode) (hbs : inserted bs = es'.map Entry.encode)
    (hfits : ∀ e ∈ es ++ es', e.Fits) (hnew : ∀ e ∈ es', s.toNat < e.seq.toNat)
    (hu : u.length + 8 < 2 ^ 32) (hs : s.toNat < 2 ^ 56) :
    Answers es u s (r.bind (readEntry u)) := by
  obtain ⟨st₁, h₁, h₂⟩ := h.split
  obtain ⟨ks, hks, hstands⟩ := steps_stands h₁
  have hperm : ks.Perm ((es' ++ es).map Entry.encode) := by
    rw [List.map_append, ← has, ← hbs, ← inserted_append]
    exact perm_inserted hks
  have hfits' : ∀ e ∈ es' ++ es, e.Fits := fun e he => hfits e (List.perm_append_comm.mem_iff.mp he)
  cases h₂ with
  | head hstep _ =>
    obtain ⟨ks', hset, -⟩ := hstep.simulated hstands
    -- the search happens when its last link is read
    cases hset with
    | seek =>
      have hanswers := seekKey_answers hfits' hperm hstands.sorted hu hs
      exact (hanswers.perm List.perm_append_comm).of_append hnew

/-- A key is deleted while a reader is on its way to it: the search passes the deletion and finds the
value that the key had. -/
theorem memtable_snapshot_deleted :
    ∃ (as bs : List (SkipEvent Slice)) (old new : Entry) (st : SkipState Unit Slice),
      Run.Steps (SkipStep memCompare) ⟨.new [], none, fun _ => none⟩
        (as ++ bs ++ [.seek (lookupMemtableKey [107] 1) (some old.encode)]) st ∧
      inserted as = [old.encode] ∧ inserted bs = [new.encode] ∧ new.type = .deletion ∧
      Answers [old] [107] 1 (some (some [97])) := by
  have h : ∃ st : SkipState Unit Slice, Run.Steps (SkipStep memCompare) ⟨.new [], none, fun _ => none⟩
      (([.silent, .silent, .silent, .silent, .insert (Entry.encode ⟨1, .value, [107], [97]⟩)] :
          List (SkipEvent Slice)) ++
        ([.silent, .silent, .silent, .silent, .silent, .silent, .silent, .silent,
          .insert (Entry.encode ⟨2, .deletion, [107], []⟩), .silent] : List (SkipEvent Slice)) ++
        ([.seek (lookupMemtableKey [107] 1) (some (Entry.encode ⟨1, .value, [107], [97]⟩))] :
          List (SkipEvent Slice))) st := by
    refine ⟨?_, .head (.insert (Entry.encode ⟨1, .value, [107], [97]⟩) rfl rfl) ?_⟩
    rotate_left
    refine .head (.write (w := ⟨_, _, _, .raise⟩) rfl) ?_
    refine .head (.write (w := ⟨_, _, _, .alloc⟩) rfl) ?_
    refine .head (.write (w := ⟨_, _, _, .prepare 0 1⟩) rfl) ?_
    refine .head (.write (w := ⟨_, _, _, .publish 0 1⟩) rfl) ?_
    refine .head (.write (w := ⟨_, _, _, .prepare 1 1⟩) rfl) ?_
    refine .head (.write (w := ⟨_, _, _, .publish 1 1⟩) rfl) ?_
    refine .head (.write (w := ⟨_, _, _, .prepare 2 1⟩) rfl) ?_
    refine .head (.insert (Entry.encode ⟨2, .deletion, [107], []⟩) rfl rfl) ?_
    refine .head (.write (w := ⟨_, _, _, .raise⟩) rfl) ?_
    refine .head (.write (w := ⟨_, _, _, .alloc⟩) rfl) ?_
    refine .head (.write (w := ⟨_, _, _, .prepare 0 2⟩) rfl) ?_
    refine .head (.seek () (lookupMemtableKey [107] 1) 0 (by decide)) ?_
    refine .head (.write (w := ⟨_, _, _, .publish 0 2⟩) rfl) ?_
    refine .head (.read (i := ()) rfl rfl) ?_
    refine .head (.found (i := ()) (r := some 1) rfl rfl) ?_
    exact .refl _
  obtain ⟨st, h⟩ := h
  have hfits : ∀ e ∈ [(⟨1, .value, [107], [97]⟩ : Entry)] ++ [⟨2, .deletion, [107], []⟩], e.Fits := by
    intro e he
    rcases List.mem_cons.mp he with rfl | he
    · exact ⟨by decide, by decide, by decide⟩
    · rw [List.mem_singleton.mp he]
      exact ⟨by decide, by decide, by decide⟩
  have hnew : ∀ e ∈ [(⟨2, .deletion, [107], []⟩ : Entry)], (1 : BitVec 64).toNat < e.seq.toNat := by
    intro e he
    rw [List.mem_singleton.mp he]
    decide
  have hanswer := memtable_snapshot h rfl rfl hfits hnew (by decide) (by decide)
  rw [Option.bind_some, readEntry_encode (hfits _ (List.mem_append_left _ (List.mem_singleton_self _))),
    if_pos rfl] at hanswer
  exact ⟨_, _, _, _, st, h, rfl, rfl, rfl, hanswer⟩

end Mdb.Ldb
