import Mdb.Lib.Run
import Mdb.Ldb.Log
import Mdb.Ldb.MemTable

/-!
# Writes, crashes and recovery

`db/db_impl.cc`: a thread that writes waits in a queue. The one in front joins the batches of those
behind it to its own, adds them to the log as one record, forces the log to the disk if it was asked to,
and puts the updates into the memtable. After a crash the memtable is made again from the log.

* `Request`: a batch on its way into the database; `takeGroup`, `buildBatchGroup`;
* `DBImpl.write`: `Write` for the thread in front, while the memtable has room; `DbStep`: the threads;
* `WriteBatch.insertInto`, `Recovery.replay`, `recoverLogFile`, `Recovery.get`;
* `numbered`: updates with their sequence numbers; `Logged`, `Kept`, **`Kept.write`**: what is written is
  in the memtable, and in the log;
* `Recovery.Holds`, **`replay_records`**: what recovery makes of the records of a log;
* **`crash_recovers`**: whatever is left of the log after a crash, the updates of the first requests
  are found again, with their sequence numbers, and those that are not had not asked for the disk.
-/

namespace Mdb.Ldb

open Fragments

/-! ## Requests -/

/-- The lengths of keys and values in an entry of a memtable are `uint32_t`s. -/
def BatchOp.Storable : BatchOp → Prop
  | .put key value => key.length + 8 < 2 ^ 32 ∧ value.length < 2 ^ 32
  | .delete key => key.length + 8 < 2 ^ 32

theorem BatchOp.Storable.fits {op : BatchOp} (h : op.Storable) : op.Fits := by
  cases op with
  | put key value => exact ⟨Nat.lt_of_add_right_lt h.1, h.2⟩
  | delete key => exact Nat.lt_of_add_right_lt (show key.length + 8 < 2 ^ 32 from h)

/-- A `DBImpl::Writer`: a batch, and whether it is to be on the disk before the thread goes on. -/
structure Request where
  sync : Bool
  batch : WriteBatch
  ops : List BatchOp
  built : Built batch ops
  storable : ∀ op ∈ ops, op.Storable

/-- The updates of some requests. -/
def updates (rs : List Request) : List BatchOp := rs.flatMap Request.ops

/-- The loop of `BuildBatchGroup`: the requests that are joined to the first one. -/
def takeGroup (sync : Bool) (maxSize : ℕ) : ℕ → List Request → List Request
  | _, [] => []
  | size, w :: ws =>
    if w.sync = true ∧ sync = false then []
    else if maxSize < size + w.batch.byteSize then []
    else w :: takeGroup sync maxSize (size + w.batch.byteSize) ws

/-- The requests behind `first` that are written together with it. A small write does not wait for a
big group. -/
def joined (first : Request) (rest : List Request) : List Request :=
  let size := first.batch.byteSize
  takeGroup first.sync (if size ≤ 128 <<< 10 then size + 128 <<< 10 else 1 <<< 20) size rest

/-- `BuildBatchGroup`. If anything is joined to the first batch, that is done in `tmp_batch_`. -/
def buildBatchGroup (first : Request) (rest : List Request) : WriteBatch :=
  match joined first rest with
  | [] => first.batch
  | w :: ws => (w :: ws).foldl (fun result w => result.append w.batch) (WriteBatch.clear.append first.batch)

/-! ## `InsertInto` -/

/-- `MemTableInserter`: its `sequence_` and its `mem_`, as long as no assertion has failed. -/
def memTableInserter : Handler (BitVec 64 × Option MemTable) where
  put key value s := (s.1 + 1#64, s.2.bind fun m => m.add s.1 .value key value)
  delete key s := (s.1 + 1#64, s.2.bind fun m => m.add s.1 .deletion key [])

/-- `WriteBatchInternal::InsertInto(b, memtable)`. -/
def WriteBatch.insertInto (b : WriteBatch) (m : MemTable) : Status × Option MemTable :=
  let r := b.iterate memTableInserter (b.sequence, some m)
  (r.1, r.2.2)

/-! ## `Write` -/

/-- A `DBImpl`: the log and the memtable that are written to, the last sequence number, and the error
after which nothing is written any more. -/
structure DBImpl where
  log : Writer
  mem : MemTable
  lastSequence : BitVec 64
  bgError : Option Status

namespace DBImpl

/-- A database with a new log. -/
def new (dest : WritableFile) : DBImpl := ⟨.new dest, .new, 0#64, none⟩

variable (d : DBImpl)

/-- `Write` for the thread in front of the queue, while the memtable has room. The texts of errors of
the file are left out. -/
def write (first : Request) (rest : List Request) : Option (Status × DBImpl) :=
  match d.bgError with
  | some e => some (e, d)
  | none =>
    let updates := (buildBatchGroup first rest).setSequence (d.lastSequence + 1#64)
    -- the count is an `int`
    let lastSequence := d.lastSequence + updates.count.signExtend 64
    let added := d.log.addRecord updates.rep
    if added.1 then
      let synced := if first.sync then added.2.dest.sync else (true, added.2.dest)
      let log : Writer := ⟨synced.2, added.2.blockOffset⟩
      if synced.1 then
        let r := updates.insertInto d.mem
        r.2.map fun mem => (r.1, ⟨log, mem, lastSequence, none⟩)
      else some (.ioError "", ⟨log, d.mem, lastSequence, some (.ioError "")⟩)
    else some (.ioError "", ⟨added.2, d.mem, lastSequence, none⟩)

/-- The requests that `Write` answers. -/
def served (first : Request) (rest : List Request) : List Request :=
  match d.bgError with
  | some _ => [first]
  | none => first :: joined first rest

end DBImpl

/-- What the threads see: some requests are answered. -/
inductive DbEvent where
  | answer (status : Status) (rs : List Request)
  | silent

/-- **A step of the threads**: one gets in line, or the one in front writes. -/
inductive DbStep : DBImpl × List Request → DbEvent → DBImpl × List Request → Prop
  | request (r : Request) (d : DBImpl) (queue : List Request) : DbStep (d, queue) .silent (d, queue ++ [r])
  | write {d d' : DBImpl} {first : Request} {rest : List Request} {status : Status}
      (h : d.write first rest = some (status, d')) :
      DbStep (d, first :: rest) (.answer status (d.served first rest))
        (d', (first :: rest).drop (d.served first rest).length)

/-- The requests that were answered, in order. -/
def answered : List DbEvent → List Request
  | [] => []
  | .answer _ rs :: evs => rs ++ answered evs
  | .silent :: evs => answered evs

/-! ## `RecoverLogFile` -/

/-- What is made from a log: the memtable, those before it that were written to tables, the last one
first, and the largest sequence number. -/
structure Recovery where
  mem : Option MemTable
  tables : List MemTable
  maxSequence : BitVec 64

/-- A round of the loop of `RecoverLogFile`. `full` tells if a memtable uses more memory than
`write_buffer_size`. Without `paranoid_checks` errors are ignored. -/
def Recovery.replay (full : MemTable → Bool) (q : Recovery) (record : Slice) : Option Recovery :=
  if record.length < 12 then some q
  else
    let batch : WriteBatch := ⟨record⟩
    (batch.insertInto (q.mem.getD .new)).2.map fun mem =>
      let lastSeq := batch.sequence + batch.count.signExtend 64 - 1#64
      let maxSequence := if q.maxSequence < lastSeq then lastSeq else q.maxSequence
      if full mem then ⟨none, mem :: q.tables, maxSequence⟩ else ⟨some mem, q.tables, maxSequence⟩

/-- `RecoverLogFile`, without `paranoid_checks`, of a log with the given contents. -/
def recoverLogFile (full : MemTable → Bool) (contents : Slice) : Option Recovery :=
  (Reader.new ⟨contents, fun _ => none⟩ true true 0).readAll.1.foldlM (Recovery.replay full)
    ⟨none, [], 0#64⟩

/-- What `DBImpl::Get` finds after the recovery: the memtable is asked first, and then the tables, the
last one first. -/
def Recovery.get (q : Recovery) (userKey : Slice) (seq : BitVec 64) : Option (Option Slice) :=
  (q.mem.getD .new :: q.tables).findSome? fun m => m.get userKey seq

/-! ## Sequence numbers -/

/-- An update with its sequence number. -/
def BatchOp.entry (seq : BitVec 64) : BatchOp → Entry
  | .put key value => ⟨seq, .value, key, value⟩
  | .delete key => ⟨seq, .deletion, key, []⟩

/-- Updates with the sequence numbers from `n` on, the last one first. -/
def numbered (n : ℕ) : List BatchOp → List Entry
  | [] => []
  | op :: ops => numbered (n + 1) ops ++ [op.entry (BitVec.ofNat 64 n)]

theorem numbered_append (n : ℕ) (ops ops' : List BatchOp) :
    numbered n (ops ++ ops') = numbered (n + ops.length) ops' ++ numbered n ops := by
  induction ops generalizing n with
  | nil => exact (List.append_nil _).symm
  | cons op ops ih =>
    rw [List.cons_append, numbered, numbered, ih, List.append_assoc, List.length_cons, Nat.add_right_comm,
      Nat.add_assoc]

theorem toNat_ofNat_seq {n : ℕ} (h : n < 2 ^ 56) : (BitVec.ofNat 64 n).toNat = n := by
  rw [BitVec.toNat_ofNat, Nat.mod_eq_of_lt (h.trans (by decide))]

theorem seq_entry (seq : BitVec 64) (op : BatchOp) : (op.entry seq).seq = seq := by cases op <;> rfl

theorem BatchOp.Storable.entry_fits {op : BatchOp} (h : op.Storable) {n : ℕ} (hn : n < 2 ^ 56) :
    (op.entry (BitVec.ofNat 64 n)).Fits := by
  have hseq : (BitVec.ofNat 64 n).toNat < 2 ^ 56 := by rwa [toNat_ofNat_seq hn]
  cases op with
  | put key value => exact ⟨hseq, h.1, h.2⟩
  | delete key => exact ⟨hseq, h, Nat.two_pow_pos 32⟩

theorem seq_numbered_lt {n : ℕ} {ops : List BatchOp} (h : n + ops.length ≤ 2 ^ 56) {e : Entry}
    (he : e ∈ numbered n ops) : e.seq.toNat < n + ops.length := by
  induction ops generalizing n with
  | nil => exact absurd he List.not_mem_nil
  | cons op ops ih =>
    rw [List.length_cons] at h ⊢
    rcases List.mem_append.mp he with he | he
    · have hlt := ih (by omega) he
      omega
    · rw [List.mem_singleton.mp he, seq_entry, toNat_ofNat_seq (by omega)]
      omega

theorem seq_numbered_ge {n : ℕ} {ops : List BatchOp} (h : n + ops.length ≤ 2 ^ 56) {e : Entry}
    (he : e ∈ numbered n ops) : n ≤ e.seq.toNat := by
  induction ops generalizing n with
  | nil => exact absurd he List.not_mem_nil
  | cons op ops ih =>
    rw [List.length_cons] at h
    rcases List.mem_append.mp he with he | he
    · have hle := ih (by omega) he
      omega
    · rw [List.mem_singleton.mp he, seq_entry, toNat_ofNat_seq (by omega)]

/-- Later updates have larger numbers. -/
theorem pairwise_numbered {n : ℕ} {ops : List BatchOp} (h : n + ops.length ≤ 2 ^ 56) :
    (numbered n ops).Pairwise fun e e' => e'.seq.toNat < e.seq.toNat := by
  induction ops generalizing n with
  | nil => exact .nil
  | cons op ops ih =>
    rw [List.length_cons] at h
    refine List.pairwise_append.mpr ⟨ih (by omega), List.pairwise_singleton _ _, fun e he e' he' => ?_⟩
    have hle := seq_numbered_ge (by omega) he
    rw [List.mem_singleton.mp he', seq_entry, toNat_ofNat_seq (by omega)]
    omega

/-! ## Updates get into a memtable -/

theorem apply_memTableInserter (seq : BitVec 64) (m : MemTable) (op : BatchOp) :
    memTableInserter.apply (seq, some m) op = (seq + 1#64,
      m.add (op.entry seq).seq (op.entry seq).type (op.entry seq).key (op.entry seq).value) := by
  cases op <;> rfl

/-- Updates that are newer than all of a memtable are added to it, one by one. -/
theorem Tabled.insertOps {ops : List BatchOp} : ∀ {m : MemTable} {es : List Entry} {n : ℕ},
    Tabled m es → (∀ e ∈ es, e.seq.toNat < n) → (∀ op ∈ ops, op.Storable) → n + ops.length ≤ 2 ^ 56 →
    ∃ m', ops.foldl memTableInserter.apply (BitVec.ofNat 64 n, some m) =
        (BitVec.ofNat 64 (n + ops.length), some m') ∧ Tabled m' (numbered n ops ++ es) := by
  induction ops with
  | nil => exact fun {m} _ _ h _ _ _ => ⟨m, rfl, h⟩
  | cons op ops ih =>
    intro m es n h hold hops hn
    rw [List.length_cons] at hn
    have hseq : (op.entry (BitVec.ofNat 64 n)).seq.toNat = n := by
      rw [seq_entry, toNat_ofNat_seq (by omega)]
    obtain ⟨m₁, hadd, h₁⟩ := h.add ((hops op List.mem_cons_self).entry_fits (n := n) (by omega))
      fun e he heq => absurd (hold e he) (by rw [heq, hseq]; exact lt_irrefl n)
    have hold₁ : ∀ e ∈ op.entry (BitVec.ofNat 64 n) :: es, e.seq.toNat < n + 1 := by
      intro e he
      rcases List.mem_cons.mp he with rfl | he
      · rw [hseq]
        exact Nat.lt_succ_self n
      · exact Nat.lt_succ_of_lt (hold e he)
    obtain ⟨m', hfold, h'⟩ := ih h₁ hold₁ (fun op' hop => hops op' (List.mem_cons_of_mem _ hop)) (by omega)
    refine ⟨m', ?_, ?_⟩
    · rw [List.foldl_cons, apply_memTableInserter, hadd, ← BitVec.ofNat_add, hfold, List.length_cons,
        Nat.add_assoc, Nat.add_comm 1]
    · rw [numbered, List.append_assoc]
      exact h'

/-- **`InsertInto`** adds the updates of a batch, with the numbers from its sequence number on. -/
theorem Tabled.insertInto {m : MemTable} {es : List Entry} (h : Tabled m es) {n : ℕ}
    (hold : ∀ e ∈ es, e.seq.toNat < n) {b : WriteBatch} {ops : List BatchOp}
    (hb : Ldb.Holds b (BitVec.ofNat 64 n) ops) (hops : ∀ op ∈ ops, op.Storable)
    (hn : n + ops.length ≤ 2 ^ 56) :
    ∃ m', b.insertInto m = (.ok, some m') ∧ Tabled m' (numbered n ops ++ es) := by
  obtain ⟨m', hfold, h'⟩ := h.insertOps hold hops hn
  refine ⟨m', ?_, h'⟩
  rw [WriteBatch.insertInto, hb.sequence, hb.iterate memTableInserter fun op hop => (hops op hop).fits]
  dsimp only
  rw [hfold]

/-! ## Groups -/

/-- A sync write is never answered by one that is not. -/
theorem sync_of_mem_takeGroup {maxSize size : ℕ} {ws : List Request} {r : Request}
    (hr : r ∈ takeGroup false maxSize size ws) : r.sync = false := by
  induction ws generalizing size with
  | nil => exact absurd hr List.not_mem_nil
  | cons w ws ih =>
    unfold takeGroup at hr
    split_ifs at hr with hsync hsize
    · exact absurd hr List.not_mem_nil
    · exact absurd hr List.not_mem_nil
    · rcases List.mem_cons.mp hr with rfl | hr
      · exact Bool.eq_false_iff.mpr fun h => hsync ⟨h, rfl⟩
      · exact ih hr

theorem built_foldl {ws : List Request} : ∀ {b : WriteBatch} {ops : List BatchOp}, Built b ops →
    Built (ws.foldl (fun result w => result.append w.batch) b) (ops ++ updates ws) := by
  induction ws with
  | nil =>
    intro b ops h
    rwa [updates, List.flatMap_nil, List.append_nil]
  | cons w ws ih =>
    intro b ops h
    have hall := ih (h.append w.built)
    rwa [List.append_assoc] at hall

/-- A group holds the updates of all its requests, one after another. -/
theorem built_buildBatchGroup (first : Request) (rest : List Request) :
    Built (buildBatchGroup first rest) (updates (first :: joined first rest)) := by
  unfold buildBatchGroup
  split
  next hj =>
    rw [hj, updates, List.flatMap_cons, List.flatMap_nil, List.append_nil]
    exact first.built
  next w ws hj =>
    rw [hj]
    exact built_foldl (Built.clear.append first.built)

/-- Requests that are written as one record of the log. -/
structure Group where
  sync : Bool
  batch : WriteBatch
  requests : List Request
  built : Built batch (updates requests)
  sync_eq : sync = false → ∀ r ∈ requests, r.sync = false

/-- The group that `Write` makes. -/
def Group.of (first : Request) (rest : List Request) : Group where
  sync := first.sync
  batch := buildBatchGroup first rest
  requests := first :: joined first rest
  built := built_buildBatchGroup first rest
  sync_eq h r hr := by
    rcases List.mem_cons.mp hr with rfl | hr
    · exact h
    · rw [joined, h] at hr
      exact sync_of_mem_takeGroup hr

/-- The requests of some groups. -/
def Group.all (gs : List Group) : List Request := gs.flatMap Group.requests

theorem updates_append (rs rs' : List Request) : updates (rs ++ rs') = updates rs ++ updates rs' :=
  List.flatMap_append

theorem Group.all_append (gs gs' : List Group) : Group.all (gs ++ gs') = Group.all gs ++ Group.all gs' :=
  List.flatMap_append

theorem Group.all_cons (g : Group) (gs : List Group) : Group.all (g :: gs) = g.requests ++ Group.all gs := rfl

theorem Group.all_singleton (g : Group) : Group.all [g] = g.requests := List.append_nil _

theorem storable_updates {rs : List Request} {op : BatchOp} (h : op ∈ updates rs) : op.Storable := by
  obtain ⟨r, -, hop⟩ := List.mem_flatMap.mp h
  exact r.storable op hop

/-- The records of some groups, the first of which gets the sequence number `n + 1`. -/
def records (n : ℕ) : List Group → List Slice
  | [] => []
  | g :: gs => (g.batch.setSequence (BitVec.ofNat 64 (n + 1))).rep ::
      records (n + (updates g.requests).length) gs

theorem records_append (n : ℕ) (gs gs' : List Group) : records n (gs ++ gs') =
    records n gs ++ records (n + (updates (Group.all gs)).length) gs' := by
  induction gs generalizing n with
  | nil => rfl
  | cons g gs ih =>
    rw [List.cons_append, records, records, ih, List.cons_append, Group.all_cons, updates_append,
      List.length_append, Nat.add_assoc]

theorem take_records (n k : ℕ) (gs : List Group) : (records n gs).take k = records n (gs.take k) := by
  induction gs generalizing n k with
  | nil => rw [List.take_nil, records, List.take_nil]
  | cons g gs ih =>
    cases k with
    | zero => rfl
    | succ k => rw [records, List.take_succ_cons, ih, List.take_succ_cons, records]

theorem Group.holds (g : Group) (seq : BitVec 64) :
    Ldb.Holds (g.batch.setSequence seq) seq (updates g.requests) :=
  g.built.holds.choose_spec.setSequence seq

/-- A count that is not too large for an `int`. -/
theorem Holds.signExtend_count {b : WriteBatch} {seq : BitVec 64} {ops : List BatchOp}
    (h : Ldb.Holds b seq ops) (hlen : ops.length < 2 ^ 31) :
    b.count.signExtend 64 = BitVec.ofNat 64 ops.length := by
  rw [h.count, BitVec.signExtend_eq_setWidth_of_msb_false]
  · apply BitVec.eq_of_toNat_eq
    simp only [BitVec.toNat_setWidth, BitVec.toNat_ofNat]
    omega
  · rw [BitVec.msb_eq_false_iff_two_mul_lt, BitVec.toNat_ofNat]
    omega

/-! ## What is written is kept -/

/-- The file is forced to the disk. -/
theorem Written.sync {w : Writer} {rs : List Slice} {blocks : List (List (Frag UInt8))}
    {cur : List (Frag UInt8)} (h : Written w rs blocks cur) :
    w.dest.sync.1 = true ∧ Written ⟨w.dest.sync.2, w.blockOffset⟩ rs blocks cur ∧
      w.dest.sync.2.synced = w.dest.contents.length ∧ w.dest.sync.2.contents = w.dest.contents := by
  have hsync : w.dest.sync = (true, { w.dest.next with synced := w.dest.contents.length }) := by
    rw [WritableFile.sync, h.laid.sound 0]
  rw [hsync]
  refine ⟨rfl, ⟨⟨fun n => h.laid.sound (n + 1), h.laid.contents, h.laid.offset, h.laid.le, h.laid.full⟩,
    h.cut⟩, rfl, rfl⟩

/-- **The groups `gs` are in the log**: the old ones on the disk, the new ones, which did not ask for it,
perhaps not. -/
structure Logged (log : Writer) (gs : List Group) : Prop where
  exists_split : ∃ old new w blocks cur, gs = old ++ new ∧ Written w (records 0 old) blocks cur ∧
    w.dest.contents.length ≤ log.dest.synced ∧
    log = w.addAll (records (updates (Group.all old)).length new) ∧ ∀ g ∈ new, g.sync = false

theorem logged_new {dest : WritableFile} (hs : dest.Sound) (h : dest.contents = []) :
    Logged (.new dest) [] := by
  refine ⟨[], [], _, [], [], rfl, .new hs h, ?_, rfl, fun _ hg => absurd hg List.not_mem_nil⟩
  rw [show (Writer.new dest).dest.contents = [] from h]
  exact Nat.zero_le _

/-- **A record is added to the log**, and forced to the disk if that was asked for. -/
theorem Logged.addRecord {log : Writer} {gs : List Group} (h : Logged log gs) (g : Group) {record : Slice}
    (hrecord : records (updates (Group.all gs)).length [g] = [record]) :
    (log.addRecord record).1 = true ∧ (log.addRecord record).2.dest.sync.1 = true ∧
    Logged (if g.sync then ⟨(log.addRecord record).2.dest.sync.2, (log.addRecord record).2.blockOffset⟩
      else (log.addRecord record).2) (gs ++ [g]) := by
  obtain ⟨old, new, w, blocks, cur, rfl, hw, hsynced, hlog, hnew⟩ := h.exists_split
  rw [Group.all_append, updates_append, List.length_append] at hrecord
  have hold : records 0 old ++ records (updates (Group.all old)).length new = records 0 (old ++ new) := by
    rw [records_append, Nat.zero_add]
  have hall : records 0 (old ++ new ++ [g]) = records 0 (old ++ new) ++ [record] := by
    rw [records_append, Group.all_append, updates_append, List.length_append, Nat.zero_add, hrecord]
  obtain ⟨blocks₁, cur₁, -, h₁, -⟩ := hw.addAll (b := records (updates (Group.all old)).length new)
  rw [← hlog, hold] at h₁
  obtain ⟨hadd, -, -, -, -, -, -, -, hsynced₁⟩ := h₁.laid.addRecord record
  obtain ⟨blocks₂, cur₂, -, h₂, -⟩ := h₁.addAll (b := [record])
  rw [← hall] at h₂
  change Written (log.addRecord record).2 _ _ _ at h₂
  obtain ⟨hsync, hw', hsync', hcontents⟩ := h₂.sync
  refine ⟨hadd, hsync, ?_⟩
  by_cases hg : g.sync = true
  · -- all of the log is on the disk
    rw [if_pos hg]
    refine ⟨old ++ new ++ [g], [], _, blocks₂, cur₂, (List.append_nil _).symm, hw', ?_, rfl,
      fun _ hg' => absurd hg' List.not_mem_nil⟩
    rw [hcontents, hsync']
  · rw [if_neg hg]
    refine ⟨old, new ++ [g], w, blocks, cur, List.append_assoc _ _ _, hw, ?_, ?_, ?_⟩
    · rw [hsynced₁]
      exact hsynced
    · rw [records_append, hrecord, hlog, Writer.addAll, Writer.addAll, List.foldl_append]
      rfl
    · intro g' hg'
      rcases List.mem_append.mp hg' with hg' | hg'
      · exact hnew g' hg'
      · rw [List.mem_singleton.mp hg']
        exact Bool.eq_false_iff.mpr hg

/-- **All that was written is in the memtable and in the log.** -/
structure Kept (d : DBImpl) (gs : List Group) : Prop where
  error : d.bgError = none
  last : d.lastSequence = BitVec.ofNat 64 (updates (Group.all gs)).length
  mem : Tabled d.mem (numbered 1 (updates (Group.all gs)))
  log : Logged d.log gs

theorem kept_new {dest : WritableFile} (hs : dest.Sound) (h : dest.contents = []) : Kept (.new dest) [] :=
  ⟨rfl, rfl, tabled_new, logged_new hs h⟩

/-- **`Write` keeps what was written, and writes a group.** -/
theorem Kept.write {d : DBImpl} {gs : List Group} (h : Kept d gs) (first : Request) (rest : List Request)
    (hlen : (updates (Group.all (gs ++ [Group.of first rest]))).length < 2 ^ 31) :
    ∃ d', d.write first rest = some (.ok, d') ∧ Kept d' (gs ++ [Group.of first rest]) := by
  have hsum : (updates (Group.all (gs ++ [Group.of first rest]))).length =
      (updates (Group.all gs)).length + (updates (Group.of first rest).requests).length := by
    rw [Group.all_append, Group.all_singleton, updates_append, List.length_append]
  rw [hsum] at hlen
  obtain ⟨seq, hseq⟩ : ∃ seq, seq = BitVec.ofNat 64 ((updates (Group.all gs)).length + 1) := ⟨_, rfl⟩
  have hnext : d.lastSequence + 1#64 = seq := by rw [hseq, h.last, BitVec.ofNat_add]
  have hb : Ldb.Holds ((buildBatchGroup first rest).setSequence seq) seq
      (updates (Group.of first rest).requests) := (Group.of first rest).holds seq
  have hrecord : records (updates (Group.all gs)).length [Group.of first rest] =
      [((buildBatchGroup first rest).setSequence seq).rep] := by rw [hseq]; rfl
  obtain ⟨hadd, hsync, hlog⟩ := h.log.addRecord (Group.of first rest) hrecord
  have hold : ∀ e ∈ numbered 1 (updates (Group.all gs)),
      e.seq.toNat < (updates (Group.all gs)).length + 1 := by
    intro e he
    have hlt := seq_numbered_lt (by omega) he
    omega
  obtain ⟨mem', hmem, htabled⟩ :=
    h.mem.insertInto hold (hseq ▸ hb) (fun op hop => storable_updates hop) (by omega)
  rw [← hseq] at hmem
  have hlast : d.lastSequence + ((buildBatchGroup first rest).setSequence seq).count.signExtend 64 =
      BitVec.ofNat 64 (updates (Group.all (gs ++ [Group.of first rest]))).length := by
    rw [hb.signExtend_count (by omega), h.last, hsum, BitVec.ofNat_add]
  have hmem' : Tabled mem' (numbered 1 (updates (Group.all (gs ++ [Group.of first rest])))) := by
    rw [Group.all_append, Group.all_singleton, updates_append, numbered_append, Nat.add_comm 1]
    exact htabled
  refine ⟨⟨if first.sync then _ else _, mem',
    BitVec.ofNat 64 (updates (Group.all (gs ++ [Group.of first rest]))).length, none⟩,
    ?_, rfl, rfl, hmem', hlog⟩
  rw [DBImpl.write, h.error]
  dsimp only
  rw [hnext, if_pos hadd, hlast]
  cases first.sync with
  | true => simp only [hsync, hmem, reduceIte, Option.map_some]
  | false => simp only [hmem, reduceIte, Option.map_some, Bool.false_eq_true]

/-! ## What is recovered -/

/-- **The updates `ops` were recovered**, with the sequence numbers from 1 on: each is in one of the
memtables, the newer ones in the later ones. -/
structure Recovery.Holds (q : Recovery) (ops : List BatchOp) : Prop where
  maxSequence : q.maxSequence = BitVec.ofNat 64 ops.length
  tabled : ∃ ess es, List.Forall₂ Tabled q.tables ess ∧ Tabled (q.mem.getD .new) es ∧
    numbered 1 ops = es ++ ess.flatten

theorem Recovery.holds_nil : Recovery.Holds ⟨none, [], 0#64⟩ [] :=
  ⟨rfl, [], [], .nil, tabled_new, rfl⟩

/-- Later updates are asked first. -/
theorem Answers.or {es es' : List Entry} {u : Slice} {s : BitVec 64} {r r' : Option (Option Slice)}
    (h : Answers es u s r) (h' : Answers es' u s r')
    (hnewer : ∀ e ∈ es, ∀ e' ∈ es', e'.seq.toNat < e.seq.toNat) : Answers (es ++ es') u s (r.or r') := by
  cases h with
  | @some e he hkey hseq hnewest =>
    refine .some (List.mem_append_left _ he) hkey hseq fun e' he' hkey' hseq' => ?_
    rcases List.mem_append.mp he' with he' | he'
    · exact hnewest e' he' hkey' hseq'
    · exact (hnewer e he e' he').le
  | none hnone =>
    cases h' with
    | none hnone' =>
      refine .none fun e he => ?_
      rcases List.mem_append.mp he with he | he
      · exact hnone e he
      · exact hnone' e he
    | @some e he hkey hseq hnewest =>
      refine .some (List.mem_append_right _ he) hkey hseq fun e' he' hkey' hseq' => ?_
      rcases List.mem_append.mp he' with he' | he'
      · exact absurd (hnone e' he' hkey') (not_lt.mpr hseq')
      · exact hnewest e' he' hkey' hseq'

/-- Memtables that are asked one after another, the newest first. -/
theorem answers_findSome {ms : List MemTable} {ess : List (List Entry)} (h : List.Forall₂ Tabled ms ess)
    (hnewer : ess.flatten.Pairwise fun e e' => e'.seq.toNat < e.seq.toNat) {u : Slice}
    (hu : u.length + 8 < 2 ^ 32) {s : BitVec 64} (hs : s.toNat < 2 ^ 56) :
    Answers ess.flatten u s (ms.findSome? fun m => m.get u s) := by
  induction h with
  | nil => exact .none fun e he => absurd he List.not_mem_nil
  | @cons m es ms ess hm _ ih =>
    rw [List.flatten_cons, List.pairwise_append] at hnewer
    have hor := (hm.get hu hs).or (ih hnewer.2.1) hnewer.2.2
    rw [List.flatten_cons, List.findSome?_cons]
    cases hget : m.get u s with
    | none => rwa [hget] at hor
    | some v => rwa [hget] at hor

/-- **What is read after the recovery.** -/
theorem Recovery.Holds.get {q : Recovery} {ops : List BatchOp} (h : q.Holds ops)
    (hlen : ops.length < 2 ^ 31) {u : Slice} (hu : u.length + 8 < 2 ^ 32) {s : BitVec 64}
    (hs : s.toNat < 2 ^ 56) : Answers (numbered 1 ops) u s (q.get u s) := by
  obtain ⟨ess, es, htables, hmem, hnumbered⟩ := h.tabled
  have hnewer : (numbered 1 ops).Pairwise fun e e' => e'.seq.toNat < e.seq.toNat :=
    pairwise_numbered (by omega)
  rw [hnumbered] at hnewer ⊢
  exact answers_findSome (.cons hmem htables) hnewer hu hs

/-- A record of the log is recovered. -/
theorem Recovery.Holds.replay {q : Recovery} {ops : List BatchOp} (h : q.Holds ops)
    (full : MemTable → Bool) (g : Group) (hlen : (ops ++ updates g.requests).length < 2 ^ 31) :
    ∃ q', q.replay full (g.batch.setSequence (BitVec.ofNat 64 (ops.length + 1))).rep = some q' ∧
      q'.Holds (ops ++ updates g.requests) := by
  rw [List.length_append] at hlen
  obtain ⟨ess, es, htables, hmem, hnumbered⟩ := h.tabled
  have hb := g.holds (BitVec.ofNat 64 (ops.length + 1))
  have hold : ∀ e ∈ es, e.seq.toNat < ops.length + 1 := by
    intro e he
    have he' : e ∈ numbered 1 ops := by
      rw [hnumbered]
      exact List.mem_append_left _ he
    have hlt := seq_numbered_lt (by omega) he'
    omega
  obtain ⟨mem, hins, htabled⟩ := hmem.insertInto hold hb (fun op hop => storable_updates hop) (by omega)
  -- the largest number is that of the last update
  have hlast : (g.batch.setSequence (BitVec.ofNat 64 (ops.length + 1))).sequence +
      (g.batch.setSequence (BitVec.ofNat 64 (ops.length + 1))).count.signExtend 64 - 1#64 =
        BitVec.ofNat 64 (ops ++ updates g.requests).length := by
    rw [hb.sequence, hb.signExtend_count (by omega), List.length_append, BitVec.ofNat_add, BitVec.ofNat_add]
    ring
  have hmax : (if q.maxSequence < BitVec.ofNat 64 (ops ++ updates g.requests).length then
      BitVec.ofNat 64 (ops ++ updates g.requests).length else q.maxSequence) =
        BitVec.ofNat 64 (ops ++ updates g.requests).length := by
    split_ifs with hlt
    · rfl
    · rw [h.maxSequence, BitVec.lt_def, BitVec.toNat_ofNat, BitVec.toNat_ofNat, List.length_append] at hlt
      have hzero : (updates g.requests).length = 0 := by omega
      rw [h.maxSequence, List.length_append, hzero, Nat.add_zero]
  have hall : numbered 1 (ops ++ updates g.requests) =
      numbered (ops.length + 1) (updates g.requests) ++ es ++ ess.flatten := by
    rw [numbered_append, hnumbered, Nat.add_comm 1, List.append_assoc]
  have hlong : ¬ (g.batch.setSequence (BitVec.ofNat 64 (ops.length + 1))).rep.length < 12 :=
    not_lt.mpr hb.kHeader_le
  rw [Recovery.replay, if_neg hlong]
  dsimp only
  rw [hins, Option.map_some, hlast, hmax]
  by_cases hfull : full mem = true
  · rw [if_pos hfull]
    exact ⟨_, rfl, rfl, _ :: ess, [], .cons htabled htables, tabled_new, hall⟩
  · rw [if_neg hfull]
    exact ⟨_, rfl, rfl, ess, _, htables, htabled, hall⟩

/-- **The records of a log are recovered.** -/
theorem replay_records (full : MemTable → Bool) {gs : List Group} : ∀ {q : Recovery} {ops : List BatchOp},
    q.Holds ops → (ops ++ updates (Group.all gs)).length < 2 ^ 31 →
    ∃ q', (records ops.length gs).foldlM (Recovery.replay full) q = some q' ∧
      q'.Holds (ops ++ updates (Group.all gs)) := by
  induction gs with
  | nil =>
    intro q ops h _
    exact ⟨q, rfl, by rwa [show updates (Group.all []) = [] from rfl, List.append_nil]⟩
  | cons g gs ih =>
    intro q ops h hlen
    rw [Group.all_cons, updates_append, ← List.append_assoc] at hlen ⊢
    obtain ⟨q₁, hq₁, h₁⟩ := h.replay full g (lt_of_le_of_lt (by simp) hlen)
    obtain ⟨q', hq', h'⟩ := ih h₁ hlen
    rw [List.length_append] at hq'
    refine ⟨q', ?_, h'⟩
    rw [records, List.foldlM_cons, hq₁]
    exact hq'

/-- **A crash**: whatever is left of the log, if all that was forced to the disk is, some first groups
are recovered, and the others had not asked for the disk. -/
theorem Kept.recovers {d : DBImpl} {gs : List Group} (h : Kept d gs) (full : MemTable → Bool)
    (hlen : (updates (Group.all gs)).length < 2 ^ 31) {n : ℕ} (hn : d.log.dest.synced ≤ n) :
    ∃ kept lost, Group.all gs = kept ++ lost ∧ (∀ r ∈ lost, r.sync = false) ∧
      ∃ q, recoverLogFile full (d.log.dest.contents.take n) = some q ∧ q.Holds (updates kept) := by
  obtain ⟨old, new, w, blocks, cur, rfl, hw, hsynced, hlog, hnew⟩ := h.log.exists_split
  obtain ⟨k, -, r, hread, -⟩ := hw.recovers (records (updates (Group.all old)).length new) (hsynced.trans hn)
  rw [← hlog, take_records] at hread
  have hrecords : records 0 old ++ records (updates (Group.all old)).length (new.take k) =
      records 0 (old ++ new.take k) := by rw [records_append, Nat.zero_add]
  have hsplit : Group.all (old ++ new) = Group.all (old ++ new.take k) ++ Group.all (new.drop k) := by
    rw [← Group.all_append, List.append_assoc, List.take_append_drop]
  refine ⟨Group.all (old ++ new.take k), Group.all (new.drop k), hsplit, ?_, ?_⟩
  · intro r hr
    obtain ⟨g, hg, hr⟩ := List.mem_flatMap.mp hr
    exact g.sync_eq (hnew g (List.mem_of_mem_drop hg)) r hr
  · rw [hsplit, updates_append, List.length_append] at hlen
    have hkept : ([] ++ updates (Group.all (old ++ new.take k))).length < 2 ^ 31 := by
      rw [List.nil_append]
      omega
    obtain ⟨q, hq, hq'⟩ := replay_records full Recovery.holds_nil hkept
    refine ⟨q, ?_, hq'⟩
    rw [recoverLogFile, hread]
    dsimp only
    rw [hrecords]
    exact hq

/-! ## Runs -/

theorem answered_append (evs evs' : List DbEvent) : answered (evs ++ evs') = answered evs ++ answered evs' := by
  induction evs with
  | nil => rfl
  | cons ev evs ih =>
    cases ev with
    | silent => exact ih
    | answer status rs => rw [List.cons_append, answered, answered, ih, List.append_assoc]

/-- All of the answers were `ok`. -/
def AllOk (evs : List DbEvent) : Prop := ∀ status rs, .answer status rs ∈ evs → status = .ok

theorem AllOk.concat {evs : List DbEvent} (h : AllOk evs) {ev : DbEvent} (hev : AllOk [ev]) :
    AllOk (evs ++ [ev]) := by
  intro status rs hmem
  rcases List.mem_append.mp hmem with hmem | hmem
  · exact h status rs hmem
  · exact hev status rs hmem

/-- **What the threads are told is kept**, run by run. -/
theorem steps_kept {dest : WritableFile} (hs : dest.Sound) (hnew : dest.contents = [])
    {evs : List DbEvent} {d : DBImpl} {queue : List Request}
    (h : Run.Steps DbStep (.new dest, []) evs (d, queue))
    (hlen : (updates (answered evs)).length < 2 ^ 31) :
    AllOk evs ∧ ∃ gs, Group.all gs = answered evs ∧ Kept d gs := by
  refine h.history (I := fun evs s => (updates (answered evs)).length < 2 ^ 31 →
    AllOk evs ∧ ∃ gs, Group.all gs = answered evs ∧ Kept s.1 gs) ?_ ?_ hlen
  · exact fun _ => ⟨fun _ _ hmem => absurd hmem List.not_mem_nil, [], rfl, kept_new hs hnew⟩
  intro evs s ev s' ih hstep hlen
  rw [answered_append, updates_append, List.length_append] at hlen
  obtain ⟨hok, gs, hgs, hk⟩ := ih (by omega)
  cases hstep with
  | request r d queue =>
    refine ⟨hok.concat fun status rs hmem => ?_, gs, ?_, hk⟩
    · cases List.mem_singleton.mp hmem
    · rw [answered_append, hgs]
      exact (List.append_nil _).symm
  | @write d d' first rest status hwrite =>
    have hserved : d.served first rest = (Group.of first rest).requests := by
      rw [DBImpl.served, hk.error]
      rfl
    have hanswered : answered (evs ++ [.answer status (d.served first rest)]) =
        Group.all (gs ++ [Group.of first rest]) := by
      rw [answered_append, Group.all_append, hgs, Group.all_singleton, ← hserved, answered, answered,
        List.append_nil]
    have hall : (updates (Group.all (gs ++ [Group.of first rest]))).length < 2 ^ 31 := by
      rw [← hanswered, answered_append, updates_append, List.length_append]
      exact hlen
    obtain ⟨d₁, hd₁, hk₁⟩ := hk.write first rest hall
    rw [hwrite] at hd₁
    cases hd₁
    refine ⟨hok.concat fun status rs hmem => ?_, _, hanswered.symm, hk₁⟩
    cases List.mem_singleton.mp hmem
    rfl

/-- Requests that ask for the disk are not lost. -/
theorem eq_nil_of_sync {rs kept lost : List Request} (h : rs = kept ++ lost) (hsync : ∀ r ∈ rs, r.sync = true)
    (hlost : ∀ r ∈ lost, r.sync = false) : lost = [] := by
  refine List.eq_nil_iff_forall_not_mem.mpr fun r hr => ?_
  have hmem : r ∈ rs := h ▸ List.mem_append_right kept hr
  exact absurd (hlost r hr) (by rw [hsync r hmem]; decide)

/-- One thread makes one request. -/
theorem exists_run_single (r : Request) (hlen : r.ops.length < 2 ^ 31) :
    ∃ d, Run.Steps DbStep (.new ⟨[], 0, fun _ => none⟩, []) [.silent, .answer .ok [r]] (d, []) := by
  have hk : Kept (.new ⟨[], 0, fun _ => none⟩) [] := kept_new (fun _ => rfl) rfl
  have hupdates : updates (Group.all ([] ++ [Group.of r []])) = r.ops := by
    change updates [r] = r.ops
    rw [updates, List.flatMap_singleton]
  obtain ⟨d, hwrite, -⟩ := hk.write r [] (by rwa [hupdates])
  exact ⟨d, .head (.request r _ []) (.head (.write hwrite) (.refl _))⟩

end Mdb.Ldb
