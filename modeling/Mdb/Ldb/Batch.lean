import Mdb.Ldb.Coding

/-!
# Write batches

`db/write_batch.cc`: updates in one string, after a sequence number and their count. A batch is what
`DB::Put` and `DB::Delete` make, what a group of writers is joined to, and what a record of the log
holds.

* `WriteBatch`, with `clear`, `put`, `delete`, `append`, `setSequence`; `iterate`: the updates are
  handed to a `Handler` one by one, also those before the place where the batch is found malformed;
* `Holds b seq ops`: the string of the batch `b`; `Built b ops`: how a batch comes to be;
* `iterate_of_holds`, `iterate_of_part`;
* **`batch_roundTrips`**: a batch that was built hands out its updates, in order; if it is cut off
  anywhere it is refused, after some first updates.
-/

namespace Mdb.Ldb

/-- A `leveldb::Status`, with its message. -/
inductive Status where
  | ok
  | notFound
  | corruption (msg : String)
  | ioError (msg : String)
  deriving DecidableEq

/-- `ValueType`. -/
inductive ValueType where
  | deletion
  | value
  deriving DecidableEq

/-- `kTypeDeletion`, `kTypeValue`. -/
def ValueType.toByte : ValueType → UInt8
  | .deletion => 0
  | .value => 1

/-- One update of a batch. -/
inductive BatchOp where
  | put (key value : Slice)
  | delete (key : Slice)
  deriving DecidableEq

/-- A `WriteBatch`: its `rep_`. -/
structure WriteBatch where
  rep : Slice

/-- The length of the sequence number and the count. -/
def kHeader : ℕ := 12

namespace WriteBatch

/-- `Clear()`. -/
def clear : WriteBatch := ⟨List.replicate kHeader 0⟩

variable (b : WriteBatch)

/-- `WriteBatchInternal::Count`. -/
def count : BitVec 32 := decodeFixed32 (b.rep.drop 8)

/-- `WriteBatchInternal::SetCount`. -/
def setCount (n : BitVec 32) : WriteBatch := ⟨b.rep.take 8 ++ encodeFixed32 n ++ b.rep.drop kHeader⟩

/-- `WriteBatchInternal::Sequence`. -/
def sequence : BitVec 64 := decodeFixed64 b.rep

/-- `WriteBatchInternal::SetSequence`. -/
def setSequence (seq : BitVec 64) : WriteBatch := ⟨encodeFixed64 seq ++ b.rep.drop 8⟩

/-- `Put(key, value)`. -/
def put (key value : Slice) : WriteBatch :=
  ⟨(b.setCount (b.count + 1)).rep ++ [ValueType.value.toByte] ++ putLengthPrefixedSlice key ++
    putLengthPrefixedSlice value⟩

/-- `Delete(key)`. -/
def delete (key : Slice) : WriteBatch :=
  ⟨(b.setCount (b.count + 1)).rep ++ [ValueType.deletion.toByte] ++ putLengthPrefixedSlice key⟩

/-- `WriteBatchInternal::Append(dst, src)`. -/
def append (src : WriteBatch) : WriteBatch :=
  ⟨(b.setCount (b.count + src.count)).rep ++ src.rep.drop kHeader⟩

/-- `WriteBatchInternal::ByteSize`. -/
def byteSize : ℕ := b.rep.length

end WriteBatch

/-- A `WriteBatch::Handler` with its state. -/
structure Handler (σ : Type) where
  put : Slice → Slice → σ → σ
  delete : Slice → σ → σ

/-- What a handler makes of one update. -/
def Handler.apply {σ : Type} (handler : Handler σ) (s : σ) : BatchOp → σ
  | .put key value => handler.put key value s
  | .delete key => handler.delete key s

/-- The `switch` of `Iterate`: the update after its tag, or what is wrong with it. -/
def nextOp (tag : UInt8) (input : Slice) : Except String (BatchOp × Slice) :=
  if tag = ValueType.value.toByte then
    match getLengthPrefixedSlice input with
    | none => .error "bad WriteBatch Put"
    | some (key, input) =>
      match getLengthPrefixedSlice input with
      | none => .error "bad WriteBatch Put"
      | some (value, input) => .ok (.put key value, input)
  else if tag = ValueType.deletion.toByte then
    match getLengthPrefixedSlice input with
    | none => .error "bad WriteBatch Delete"
    | some (key, input) => .ok (.delete key, input)
  else .error "unknown WriteBatch tag"

theorem length_getVarintLoop {w last : ℕ} : ∀ {p rest : Slice} {shift : ℕ} {r v : BitVec w},
    getVarintLoop last shift r p = some (v, rest) → rest.length ≤ p.length := by
  intro p
  induction p with
  | nil => exact fun h => absurd h (Option.some_ne_none _).symm
  | cons byte p ih =>
    intro rest shift r v h
    unfold getVarintLoop at h
    split_ifs at h
    · exact (ih h).trans (Nat.le_succ _)
    · cases h
      exact Nat.le_succ _

theorem length_getLengthPrefixedSlice {input result rest : Slice}
    (h : getLengthPrefixedSlice input = some (result, rest)) : rest.length ≤ input.length := by
  have hvarint : ∀ {v : BitVec 32} {r : Slice}, getVarint32 input = some (v, r) →
      r.length ≤ input.length := by
    intro v r hv
    cases input with
    | nil => cases hv
    | cons byte p =>
      rw [getVarint32] at hv
      split_ifs at hv
      · cases hv
        exact Nat.le_succ _
      · exact length_getVarintLoop hv
  rw [getLengthPrefixedSlice] at h
  cases hg : getVarint32 input with
  | none =>
    rw [hg] at h
    cases h
  | some p =>
    obtain ⟨v, r⟩ := p
    rw [hg] at h
    dsimp only at h
    split_ifs at h
    cases h
    rw [List.length_drop]
    have := hvarint hg
    omega

theorem length_nextOp {tag : UInt8} {input rest : Slice} {op : BatchOp}
    (h : nextOp tag input = .ok (op, rest)) : rest.length ≤ input.length := by
  unfold nextOp at h
  split_ifs at h
  · cases hk : getLengthPrefixedSlice input with
    | none =>
      rw [hk] at h
      cases h
    | some p =>
      rw [hk] at h
      dsimp only at h
      cases hv : getLengthPrefixedSlice p.2 with
      | none =>
        rw [hv] at h
        cases h
      | some q =>
        rw [hv] at h
        cases h
        exact (length_getLengthPrefixedSlice hv).trans (length_getLengthPrefixedSlice hk)
  · cases hk : getLengthPrefixedSlice input with
    | none =>
      rw [hk] at h
      cases h
    | some p =>
      rw [hk] at h
      cases h
      exact length_getLengthPrefixedSlice hk

section Iterate

variable {σ : Type} (handler : Handler σ)

/-- The loop of `Iterate`, with the updates found so far. -/
def iterateLoop (found : BitVec 32) (s : σ) (input : Slice) : Status × BitVec 32 × σ :=
  match input with
  | [] => (.ok, found, s)
  | tag :: input =>
    match _h : nextOp tag input with
    | .error msg => (.corruption msg, found + 1#32, s)
    | .ok (op, rest) => iterateLoop (found + 1#32) (handler.apply s op) rest
termination_by input.length
decreasing_by exact Nat.lt_succ_of_le (length_nextOp _h)

/-- `Iterate(handler)`. -/
def WriteBatch.iterate (b : WriteBatch) (s : σ) : Status × σ :=
  if b.rep.length < kHeader then (.corruption "malformed WriteBatch (too small)", s)
  else
    let r := iterateLoop handler 0#32 s (b.rep.drop kHeader)
    if r.1 ≠ .ok then (r.1, r.2.2)
    else if r.2.1 ≠ b.count then (.corruption "WriteBatch has wrong count", r.2.2)
    else (.ok, r.2.2)

end Iterate

/-! ## The string of a batch -/

/-- The bytes of one update. -/
def encOp : BatchOp → Slice
  | .put key value =>
    ValueType.value.toByte :: (putLengthPrefixedSlice key ++ putLengthPrefixedSlice value)
  | .delete key => ValueType.deletion.toByte :: putLengthPrefixedSlice key

/-- The bytes of some updates. -/
def encOps (ops : List BatchOp) : Slice := ops.flatMap encOp

/-- The lengths of keys and values are `uint32_t`s. -/
def BatchOp.Fits : BatchOp → Prop
  | .put key value => key.length < 2 ^ 32 ∧ value.length < 2 ^ 32
  | .delete key => key.length < 2 ^ 32

/-- **The batch `b` holds `ops`**, with the sequence number `seq`. -/
structure Holds (b : WriteBatch) (seq : BitVec 64) (ops : List BatchOp) : Prop where
  rep : b.rep = encodeFixed64 seq ++ encodeFixed32 (BitVec.ofNat 32 ops.length) ++ encOps ops

namespace Holds

variable {b : WriteBatch} {seq : BitVec 64} {ops : List BatchOp}

theorem drop_eight (h : Holds b seq ops) :
    b.rep.drop 8 = encodeFixed32 (BitVec.ofNat 32 ops.length) ++ encOps ops := by
  rw [h.rep, List.append_assoc]
  exact List.drop_left' rfl

theorem drop_header (h : Holds b seq ops) : b.rep.drop kHeader = encOps ops := by
  rw [h.rep]
  exact List.drop_left' rfl

theorem count (h : Holds b seq ops) : b.count = BitVec.ofNat 32 ops.length := by
  rw [WriteBatch.count, h.drop_eight, decodeFixed32_append]

theorem sequence (h : Holds b seq ops) : b.sequence = seq := by
  rw [WriteBatch.sequence, h.rep, List.append_assoc, decodeFixed64_append]

theorem setCount (h : Holds b seq ops) (n : BitVec 32) :
    (b.setCount n).rep = encodeFixed64 seq ++ encodeFixed32 n ++ encOps ops := by
  have htake : b.rep.take 8 = encodeFixed64 seq := by
    rw [h.rep, List.append_assoc]
    exact List.take_left' rfl
  rw [WriteBatch.setCount, htake, h.drop_header]

theorem setSequence (h : Holds b seq ops) (seq' : BitVec 64) : Holds (b.setSequence seq') seq' ops :=
  ⟨by rw [WriteBatch.setSequence, h.drop_eight, List.append_assoc]⟩

theorem clear : Holds .clear 0 [] := ⟨by decide⟩

theorem length_succ (ops : List BatchOp) (op : BatchOp) :
    BitVec.ofNat 32 (ops ++ [op]).length = BitVec.ofNat 32 ops.length + 1 := by
  rw [List.length_append, BitVec.ofNat_add]
  rfl

theorem encOps_append (a c : List BatchOp) : encOps (a ++ c) = encOps a ++ encOps c :=
  List.flatMap_append

theorem encOps_singleton (op : BatchOp) : encOps [op] = encOp op := List.append_nil _

theorem put (h : Holds b seq ops) (key value : Slice) :
    Holds (b.put key value) seq (ops ++ [.put key value]) := by
  refine ⟨?_⟩
  rw [WriteBatch.put, h.setCount, h.count, length_succ, encOps_append, encOps_singleton, encOp]
  simp only [List.append_assoc, List.cons_append, List.nil_append]

theorem delete (h : Holds b seq ops) (key : Slice) :
    Holds (b.delete key) seq (ops ++ [.delete key]) := by
  refine ⟨?_⟩
  rw [WriteBatch.delete, h.setCount, h.count, length_succ, encOps_append, encOps_singleton, encOp]
  simp only [List.append_assoc, List.cons_append, List.nil_append]

theorem append {b' : WriteBatch} {seq' : BitVec 64} {ops' : List BatchOp} (h : Holds b seq ops)
    (h' : Holds b' seq' ops') : Holds (b.append b') seq (ops ++ ops') := by
  refine ⟨?_⟩
  rw [WriteBatch.append, h.setCount, h.count, h'.count, h'.drop_header, List.length_append,
    BitVec.ofNat_add, encOps_append, ← List.append_assoc]

end Holds

/-- How a batch comes to be. -/
inductive Built : WriteBatch → List BatchOp → Prop
  | clear : Built .clear []
  | put {b : WriteBatch} {ops : List BatchOp} (h : Built b ops) (key value : Slice) :
      Built (b.put key value) (ops ++ [.put key value])
  | delete {b : WriteBatch} {ops : List BatchOp} (h : Built b ops) (key : Slice) :
      Built (b.delete key) (ops ++ [.delete key])
  | append {b b' : WriteBatch} {ops ops' : List BatchOp} (h : Built b ops) (h' : Built b' ops') :
      Built (b.append b') (ops ++ ops')
  | setSequence {b : WriteBatch} {ops : List BatchOp} (h : Built b ops) (seq : BitVec 64) :
      Built (b.setSequence seq) ops

theorem Built.holds {b : WriteBatch} {ops : List BatchOp} (h : Built b ops) : ∃ seq, Holds b seq ops := by
  induction h with
  | clear => exact ⟨0, .clear⟩
  | put _ key value ih => exact ⟨_, ih.choose_spec.put key value⟩
  | delete _ key ih => exact ⟨_, ih.choose_spec.delete key⟩
  | append _ _ ih ih' => exact ⟨_, ih.choose_spec.append ih'.choose_spec⟩
  | setSequence _ seq ih => exact ⟨seq, ih.choose_spec.setSequence seq⟩

/-! ## Reading a batch -/

section Read

variable {σ : Type} (handler : Handler σ)

theorem iterateLoop_error {tag : UInt8} {input : Slice} {msg : String} (h : nextOp tag input = .error msg)
    (found : BitVec 32) (s : σ) :
    iterateLoop handler found s (tag :: input) = (.corruption msg, found + 1#32, s) := by
  rw [iterateLoop]
  split
  · rename_i msg' h'
    rw [h] at h'
    cases h'
    rfl
  · rename_i op rest h'
    rw [h] at h'
    cases h'

theorem iterateLoop_ok {tag : UInt8} {input rest : Slice} {op : BatchOp}
    (h : nextOp tag input = .ok (op, rest)) (found : BitVec 32) (s : σ) :
    iterateLoop handler found s (tag :: input) =
      iterateLoop handler (found + 1#32) (handler.apply s op) rest := by
  rw [iterateLoop]
  split
  · rename_i msg h'
    rw [h] at h'
    cases h'
  · rename_i op' rest' h'
    rw [h] at h'
    cases h'
    rfl

/-- An update is read back, with anything after it. -/
theorem iterateLoop_encOp {op : BatchOp} (hfits : op.Fits) (found : BitVec 32) (s : σ) (rest : Slice) :
    iterateLoop handler found s (encOp op ++ rest) =
      iterateLoop handler (found + 1#32) (handler.apply s op) rest := by
  cases op with
  | put key value =>
    refine iterateLoop_ok handler ?_ found s
    change nextOp _ (putLengthPrefixedSlice key ++ putLengthPrefixedSlice value ++ rest) = _
    rw [nextOp, if_pos rfl, List.append_assoc, getLengthPrefixedSlice_append hfits.1]
    dsimp only
    rw [getLengthPrefixedSlice_append hfits.2]
  | delete key =>
    refine iterateLoop_ok handler ?_ found s
    change nextOp _ (putLengthPrefixedSlice key ++ rest) = _
    rw [nextOp, if_neg (by decide), if_pos rfl, getLengthPrefixedSlice_append hfits]

/-- An update that was cut off is found malformed. -/
theorem iterateLoop_part {op : BatchOp} (hfits : op.Fits) {p : Slice} (hpre : p <+: encOp op)
    (hne : p ≠ encOp op) (hnil : p ≠ []) (found : BitVec 32) (s : σ) :
    ∃ msg, iterateLoop handler found s p = (.corruption msg, found + 1#32, s) := by
  cases p with
  | nil => exact absurd rfl hnil
  | cons tag p =>
    cases op with
    | put key value =>
      obtain ⟨rfl, hp⟩ := List.cons_prefix_cons.mp hpre
      have hne : p ≠ putLengthPrefixedSlice key ++ putLengthPrefixedSlice value :=
        fun he => hne (by rw [he, encOp])
      refine ⟨"bad WriteBatch Put", iterateLoop_error handler ?_ found s⟩
      rw [nextOp, if_pos rfl]
      by_cases hkey : putLengthPrefixedSlice key <+: p
      · -- the key is whole, the value is not
        obtain ⟨q, rfl⟩ := hkey
        have hq : q <+: putLengthPrefixedSlice value := (List.prefix_append_right_inj _).mp hp
        rw [getLengthPrefixedSlice_append hfits.1]
        dsimp only
        rw [getLengthPrefixedSlice_of_part hfits.2 hq fun he => hne (by rw [he])]
      · have hpart : p <+: putLengthPrefixedSlice key :=
          (List.prefix_or_prefix_of_prefix hp (List.prefix_append _ _)).resolve_right hkey
        rw [getLengthPrefixedSlice_of_part hfits.1 hpart fun he => hkey (he ▸ List.prefix_refl _)]
    | delete key =>
      obtain ⟨rfl, hp⟩ := List.cons_prefix_cons.mp hpre
      refine ⟨"bad WriteBatch Delete", iterateLoop_error handler ?_ found s⟩
      rw [nextOp, if_neg (by decide), if_pos rfl,
        getLengthPrefixedSlice_of_part hfits hp fun he => hne (by rw [he, encOp])]

theorem found_succ (found : BitVec 32) (k : ℕ) :
    found + 1#32 + BitVec.ofNat 32 k = found + BitVec.ofNat 32 (k + 1) := by
  rw [Nat.add_comm k, BitVec.ofNat_add, BitVec.add_assoc]

theorem iterateLoop_encOps {ops : List BatchOp} (hfits : ∀ op ∈ ops, op.Fits) : ∀ (found : BitVec 32)
    (s : σ), iterateLoop handler found s (encOps ops) =
      (.ok, found + BitVec.ofNat 32 ops.length, ops.foldl handler.apply s) := by
  induction ops with
  | nil =>
    intro found s
    rw [show encOps [] = [] from rfl, iterateLoop]
    simp
  | cons op ops ih =>
    intro found s
    rw [show encOps (op :: ops) = encOp op ++ encOps ops from rfl,
      iterateLoop_encOp handler (hfits op List.mem_cons_self),
      ih fun o ho => hfits o (List.mem_cons_of_mem _ ho), found_succ, List.length_cons, List.foldl_cons]

/-- Updates that were cut off: all of the first ones, and then perhaps a malformed one. -/
theorem iterateLoop_encOps_part {ops : List BatchOp} (hfits : ∀ op ∈ ops, op.Fits) : ∀ {p : Slice},
    p <+: encOps ops → p ≠ encOps ops → ∀ (found : BitVec 32) (s : σ), ∃ k < ops.length,
      ∃ st found', iterateLoop handler found s p = (st, found', (ops.take k).foldl handler.apply s) ∧
        (st = .ok ∧ found' = found + BitVec.ofNat 32 k ∨ ∃ msg, st = .corruption msg) := by
  induction ops with
  | nil => exact fun hpre hne => absurd (List.prefix_nil.mp hpre) hne
  | cons op ops ih =>
    intro p hpre hne found s
    have hcons : encOps (op :: ops) = encOp op ++ encOps ops := rfl
    have hop := hfits op List.mem_cons_self
    rw [hcons] at hpre hne
    by_cases hwhole : encOp op <+: p
    · obtain ⟨q, rfl⟩ := hwhole
      have hq : q <+: encOps ops := (List.prefix_append_right_inj _).mp hpre
      obtain ⟨k, hk, st, found', hrun, hst⟩ := ih (fun o ho => hfits o (List.mem_cons_of_mem _ ho)) hq
        (fun he => hne (by rw [he])) (found + 1#32) (handler.apply s op)
      refine ⟨k + 1, Nat.succ_lt_succ hk, st, found', ?_, ?_⟩
      · rw [iterateLoop_encOp handler hop, hrun, List.take_succ_cons, List.foldl_cons]
      · rcases hst with ⟨h1, h2⟩ | h
        · exact .inl ⟨h1, h2.trans (found_succ _ _)⟩
        · exact .inr h
    · have hp : p <+: encOp op :=
        (List.prefix_or_prefix_of_prefix hpre (List.prefix_append _ _)).resolve_right hwhole
      by_cases hnil : p = []
      · subst hnil
        refine ⟨0, Nat.succ_pos _, .ok, found, ?_, .inl ⟨rfl, ?_⟩⟩
        · rw [iterateLoop]
          rfl
        · simp
      · obtain ⟨msg, hmsg⟩ := iterateLoop_part handler hop hp
          (fun he => hwhole (he ▸ List.prefix_refl _)) hnil found s
        exact ⟨0, Nat.succ_pos _, _, _, hmsg, .inr ⟨msg, rfl⟩⟩

variable {b : WriteBatch} {seq : BitVec 64} {ops : List BatchOp}

theorem Holds.kHeader_le (h : Holds b seq ops) : kHeader ≤ b.rep.length := by
  rw [h.rep, List.length_append]
  exact Nat.le_add_right 12 _

/-- A batch hands out its updates. -/
theorem Holds.iterate (h : Holds b seq ops) (hfits : ∀ op ∈ ops, op.Fits) (s : σ) :
    b.iterate handler s = (.ok, ops.foldl handler.apply s) := by
  rw [WriteBatch.iterate, if_neg (not_lt.mpr h.kHeader_le), h.drop_header,
    iterateLoop_encOps handler hfits]
  simp [h.count]

/-- A batch that was cut off hands out some first updates and is refused. -/
theorem Holds.iterate_part (h : Holds b seq ops) (hfits : ∀ op ∈ ops, op.Fits)
    (hlen : ops.length < 2 ^ 32) {p : Slice} (hpre : p <+: b.rep) (hne : p ≠ b.rep) (s : σ) :
    ∃ msg, ∃ k ≤ ops.length, WriteBatch.iterate handler ⟨p⟩ s =
      (.corruption msg, (ops.take k).foldl handler.apply s) := by
  by_cases hshort : p.length < kHeader
  · refine ⟨"malformed WriteBatch (too small)", 0, Nat.zero_le _, ?_⟩
    rw [WriteBatch.iterate, if_pos hshort]
    rfl
  · -- the header is whole
    obtain ⟨q, rfl⟩ : encodeFixed64 seq ++ encodeFixed32 (BitVec.ofNat 32 ops.length) <+: p := by
      rw [h.rep] at hpre
      refine List.prefix_of_prefix_length_le (List.prefix_append _ _) hpre (not_lt.mp hshort)
    rw [h.rep] at hpre hne
    have hq : q <+: encOps ops := (List.prefix_append_right_inj _).mp hpre
    have hqne : q ≠ encOps ops := fun he => hne (by rw [he])
    obtain ⟨k, hk, st, found, hrun, hst⟩ := iterateLoop_encOps_part handler hfits hq hqne 0#32 s
    have hcount : WriteBatch.count
        ⟨encodeFixed64 seq ++ encodeFixed32 (BitVec.ofNat 32 ops.length) ++ q⟩ =
        BitVec.ofNat 32 ops.length := by
      rw [WriteBatch.count, List.append_assoc]
      exact decodeFixed32_append _ _
    rw [WriteBatch.iterate, if_neg hshort, hcount]
    dsimp only
    rw [show (encodeFixed64 seq ++ encodeFixed32 (BitVec.ofNat 32 ops.length) ++ q).drop kHeader = q from
      List.drop_left' rfl, hrun]
    rcases hst with ⟨rfl, rfl⟩ | ⟨msg, rfl⟩
    · -- it ends between two updates, and the count tells
      have hne : 0#32 + BitVec.ofNat 32 k ≠ BitVec.ofNat 32 ops.length := by
        rw [BitVec.zero_add]
        intro he
        have := congrArg BitVec.toNat he
        rw [BitVec.toNat_ofNat, BitVec.toNat_ofNat, Nat.mod_eq_of_lt (by omega),
          Nat.mod_eq_of_lt hlen] at this
        omega
      refine ⟨"WriteBatch has wrong count", k, hk.le, ?_⟩
      rw [if_neg (by simp), if_pos hne]
    · refine ⟨msg, k, hk.le, ?_⟩
      rw [if_pos (by simp)]

end Read

/-- **A batch that was built hands out its updates**, in order; cut off anywhere, it is refused after
some first ones. -/
theorem batch_roundTrips {σ : Type} (handler : Handler σ) (s : σ) {b : WriteBatch} {ops : List BatchOp}
    (h : Built b ops) (hfits : ∀ op ∈ ops, op.Fits) (hlen : ops.length < 2 ^ 32) :
    b.iterate handler s = (.ok, ops.foldl handler.apply s) ∧
      ∀ p, p <+: b.rep → p ≠ b.rep → ∃ msg, ∃ k ≤ ops.length,
        WriteBatch.iterate handler ⟨p⟩ s = (.corruption msg, (ops.take k).foldl handler.apply s) := by
  obtain ⟨seq, hb⟩ := h.holds
  exact ⟨hb.iterate handler hfits s, fun p hpre hne => hb.iterate_part handler hfits hlen hpre hne s⟩

theorem batch_roundTrips_two :
    ((WriteBatch.clear.put [97] [1]).delete [98]).iterate
        ⟨fun key _ keys => keys ++ [key], fun key keys => keys ++ [key]⟩ [] = (.ok, [[97], [98]]) ∧
      ∀ p, p <+: ((WriteBatch.clear.put [97] [1]).delete [98]).rep →
        p ≠ ((WriteBatch.clear.put [97] [1]).delete [98]).rep → ∃ msg, ∃ k ≤ 2,
          WriteBatch.iterate ⟨fun key _ keys => keys ++ [key], fun key keys => keys ++ [key]⟩ ⟨p⟩ [] =
            (.corruption msg, ([.put [97] [1], .delete [98]].take k).foldl
              (Handler.apply ⟨fun key _ keys => keys ++ [key], fun key keys => keys ++ [key]⟩) []) :=
  batch_roundTrips _ [] ((Built.clear.put [97] [1]).delete [98])
    (by simp [BatchOp.Fits]) (by decide)

end Mdb.Ldb
