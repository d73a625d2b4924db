import Mdb.Lib.Fragments
import Mdb.Ldb.LogWriter

/-!
# Reading a log

`db/log_reader.cc`: a log is read block by block. What cannot be read of a block is dropped with the
rest of it and reported; a file that ends in the middle of a record is taken for one whose writer
died.

* `SequentialFile`, `Reader`, `Reader.reportDrop`, `Reader.parseRecord`, `Reader.readPhysicalRecord`,
  `Reader.skipToInitialBlock`, `Reader.readRecord`, as in the source; `Reader.readAll`: the loop of
  its callers;
* `parseBlock`, `fileStream`: the fragments in the blocks of a file;
* `readPhysicalRecord_spec`: the reader meets them one by one;
* **`readAll_spec`**: what is read of a file from its start is what `Fragments.assemble` makes of them,
  and if nothing was dropped nothing was reported.
-/

namespace Mdb.Ldb

open Fragments

/-! ## Files -/

/-- A `SequentialFile`: what is left of it, and what the calls to come do. A call that fails has read
some bytes. -/
structure SequentialFile where
  rest : Slice
  script : ℕ → Option ℕ

namespace SequentialFile

variable (f : SequentialFile)

/-- The file after `n` bytes were read in one call. -/
def after (n : ℕ) : SequentialFile := ⟨f.rest.drop n, fun i => f.script (i + 1)⟩

/-- `Read(n)`. -/
def read (n : ℕ) : Bool × Slice × SequentialFile :=
  match f.script 0 with
  | none => (true, f.rest.take n, f.after n)
  | some k => (false, f.rest.take (min k n), f.after (min k n))

/-- `Skip(n)`. -/
def skip (n : ℕ) : Bool × SequentialFile :=
  match f.script 0 with
  | none => (true, f.after n)
  | some _ => (false, f.after 0)

/-- No call fails. -/
def Sound : Prop := ∀ n, f.script n = none

theorem read_of_ok {f : SequentialFile} {n : ℕ} (h : (f.read n).1 = true) :
    f.read n = (true, f.rest.take n, f.after n) := by
  unfold read at h ⊢
  split at h
  · rfl
  · exact absurd h Bool.false_ne_true

end SequentialFile

/-! ## `Reader` -/

/-- `kEof`, after the record types. -/
def kEof : ℕ := 5

/-- `kBadRecord`. -/
def kBadRecord : ℕ := 6

/-- The `Status` a drop is reported with. -/
inductive DropReason where
  | corruption (message : String)
  | io
  deriving DecidableEq

/-- `log::Reader`. -/
structure Reader where
  file : SequentialFile
  reporter : Bool
  checksum : Bool
  buffer : Slice
  eof : Bool
  lastRecordOffset : ℕ
  endOfBufferOffset : ℕ
  initialOffset : ℕ
  resyncing : Bool
  /-- The calls of `reporter_->Corruption`. -/
  reports : List (ℕ × DropReason)

/-- The difference of two `uint64_t`. -/
def sub64 (a b : ℕ) : ℕ := (a + 2 ^ 64 - b % 2 ^ 64) % 2 ^ 64

/-- The `unsigned int` a `char` is made into. -/
def charToUnsigned (b : UInt8) : ℕ := if b.toNat < 128 then b.toNat else 2 ^ 32 - 256 + b.toNat

namespace Reader

/-- The constructor. -/
def new (file : SequentialFile) (reporter checksum : Bool) (initialOffset : ℕ) : Reader where
  file := file
  reporter := reporter
  checksum := checksum
  buffer := []
  eof := false
  lastRecordOffset := 0
  endOfBufferOffset := 0
  initialOffset := initialOffset
  resyncing := 0 < initialOffset
  reports := []

variable (r : Reader)

/-- `ReportDrop(bytes, reason)`. -/
def reportDrop (bytes : ℕ) (reason : DropReason) : Reader :=
  if r.reporter = true ∧
      r.initialOffset ≤ sub64 (sub64 r.endOfBufferOffset r.buffer.length) bytes then
    { r with reports := r.reports ++ [(bytes, reason)] }
  else r

/-- `ReportCorruption(bytes, reason)`. -/
def reportCorruption (bytes : ℕ) (reason : String) : Reader := r.reportDrop bytes (.corruption reason)

/-- The reader once `buffer_` was cleared: the rest of the block is dropped. -/
def dropped : Reader := { r with buffer := [] }

/-- The length in the header at the front of the buffer. -/
def recordLength (buffer : Slice) : ℕ := (buffer.getD 4 0).toNat ||| ((buffer.getD 5 0).toNat <<< 8)

/-- The type in the header at the front of the buffer. -/
def recordType (buffer : Slice) : ℕ := charToUnsigned (buffer.getD 6 0)

/-- Whether the record at the front of the buffer has the checksum in its header. -/
def crcOk (buffer : Slice) : Bool :=
  unmask (decodeFixed32 buffer) = value 0 ((buffer.drop 6).take (1 + recordLength buffer))

/-- `ReadPhysicalRecord` once there is a header in the buffer: the type, the data, and the reader. -/
def parseRecord : ℕ × Slice × Reader :=
  let length := recordLength r.buffer
  let type := recordType r.buffer
  let dropSize := r.buffer.length
  if r.buffer.length < kHeaderSize + length then
    if r.eof then (kEof, [], r.dropped)
    else (kBadRecord, [], r.dropped.reportCorruption dropSize "bad record length")
  else if type = 0 ∧ length = 0 then (kBadRecord, [], r.dropped)
  else if r.checksum = true ∧ crcOk r.buffer = false then
    (kBadRecord, [], r.dropped.reportCorruption dropSize "checksum mismatch")
  else
    let rest := r.buffer.drop (kHeaderSize + length)
    let parsed := { r with buffer := rest }
    if sub64 (sub64 r.endOfBufferOffset rest.length) (kHeaderSize + length) < r.initialOffset then
      (kBadRecord, [], parsed)
    else (type, (r.buffer.drop kHeaderSize).take length, parsed)

/-- `ReadPhysicalRecord`: the next block is read when there is no header left in this one. -/
def readPhysicalRecord (r : Reader) : ℕ × Slice × Reader :=
  if r.buffer.length < kHeaderSize then
    if r.eof then (kEof, [], r.dropped)
    else
      let block := r.file.read kBlockSize
      let offset := r.endOfBufferOffset + block.2.1.length
      if block.1 then
        readPhysicalRecord { r with
          file := block.2.2
          buffer := block.2.1
          eof := block.2.1.length < kBlockSize
          endOfBufferOffset := offset }
      else
        let failed := { r with file := block.2.2, buffer := [], endOfBufferOffset := offset }
        (kEof, [], { failed.reportDrop kBlockSize .io with eof := true })
  else r.parseRecord
termination_by r.file.rest.length + if r.eof then 0 else 1
decreasing_by
  rename_i heof hok
  simp only [SequentialFile.read_of_ok hok, SequentialFile.after, List.length_take, List.length_drop,
    decide_eq_true_eq]
  rw [if_neg heof]
  unfold kBlockSize
  split_ifs <;> omega

/-- The bytes the reader has still to look at. -/
def size : ℕ := r.file.rest.length + r.buffer.length

@[simp]
theorem size_reportDrop (bytes : ℕ) (reason : DropReason) : (r.reportDrop bytes reason).size = r.size := by
  unfold reportDrop
  split_ifs <;> rfl

theorem size_parseRecord (hbuf : kHeaderSize ≤ r.buffer.length) : r.parseRecord.2.2.size < r.size := by
  have hlt : r.dropped.size < r.size := by
    change r.file.rest.length + 0 < r.file.rest.length + r.buffer.length
    unfold kHeaderSize at hbuf
    omega
  unfold parseRecord
  dsimp only
  split_ifs
  · exact hlt
  · rwa [reportCorruption, size_reportDrop]
  · exact hlt
  · rwa [reportCorruption, size_reportDrop]
  all_goals
    change r.file.rest.length + (r.buffer.drop _).length < r.file.rest.length + r.buffer.length
    rw [List.length_drop]
    unfold kHeaderSize at *
    omega

/-- A record that is read is read off. -/
theorem size_readPhysicalRecord (h : r.readPhysicalRecord.1 ≠ kEof) :
    r.readPhysicalRecord.2.2.size < r.size := by
  fun_induction readPhysicalRecord r with
  | case1 => exact absurd rfl h
  | case2 r hbuf heof block offset hok ih =>
    refine lt_of_lt_of_le (ih h) ?_
    have hblock : block = _ := SequentialFile.read_of_ok hok
    change block.2.2.rest.length + block.2.1.length ≤ _
    rw [hblock]
    simp only [SequentialFile.after, List.length_take, List.length_drop, size]
    omega
  | case3 => exact absurd rfl h
  | case4 r hbuf => exact r.size_parseRecord (not_lt.mp hbuf)

/-- The record that `ReadRecord` has the start of: `in_fragmented_record`, `*scratch` and
`prospective_record_offset`. -/
structure Scratch where
  inFragmentedRecord : Bool
  scratch : Slice
  prospectiveRecordOffset : ℕ

/-- The report of a record that ends with the start of another, unless the writer left an empty
fragment. -/
def reportPartial (st : Scratch) (reason : String) : Reader :=
  if st.inFragmentedRecord = true ∧ st.scratch ≠ [] then r.reportCorruption st.scratch.length reason
  else r

/-- The `switch` of `ReadRecord`: it returns a record, or goes on. -/
def switchType (st : Scratch) (offset type : ℕ) (fragment : Slice) : Slice × Reader ⊕ Scratch × Reader :=
  if type = 1 then
    .inl (fragment, { r.reportPartial st "partial record without end(1)" with lastRecordOffset := offset })
  else if type = 2 then
    .inr (⟨true, fragment, offset⟩, r.reportPartial st "partial record without end(2)")
  else if type = 3 then
    if st.inFragmentedRecord then .inr ({ st with scratch := st.scratch ++ fragment }, r)
    else .inr (st, r.reportCorruption fragment.length "missing start of fragmented record(1)")
  else if type = 4 then
    if st.inFragmentedRecord then
      .inl (st.scratch ++ fragment, { r with lastRecordOffset := st.prospectiveRecordOffset })
    else .inr (st, r.reportCorruption fragment.length "missing start of fragmented record(2)")
  else if type = kBadRecord then
    if st.inFragmentedRecord then
      .inr ({ st with inFragmentedRecord := false, scratch := [] },
        r.reportCorruption st.scratch.length "error in middle of record")
    else .inr (st, r)
  else
    let bytes := fragment.length + if st.inFragmentedRecord then st.scratch.length else 0
    .inr ({ st with inFragmentedRecord := false, scratch := [] },
      r.reportCorruption bytes ("unknown record type " ++ toString type))

/-- A round of the loop of `ReadRecord` once a physical record was read: while `resyncing_` the end of
a record that started earlier is skipped. -/
def afterPhysical (st : Scratch) (offset type : ℕ) (fragment : Slice) :
    Slice × Reader ⊕ Scratch × Reader :=
  if r.resyncing = true ∧ type = 3 then .inr (st, r)
  else if r.resyncing = true ∧ type = 4 then .inr (st, { r with resyncing := false })
  else ({ r with resyncing := false } : Reader).switchType st offset type fragment

@[simp]
theorem size_reportPartial (st : Scratch) (reason : String) : (r.reportPartial st reason).size = r.size := by
  unfold reportPartial reportCorruption
  split_ifs
  · exact r.size_reportDrop _ _
  · rfl

theorem size_switchType (st : Scratch) (offset type : ℕ) (fragment : Slice) :
    (r.switchType st offset type fragment).elim (·.2.size) (·.2.size) = r.size := by
  unfold switchType reportCorruption
  dsimp only
  split_ifs <;> simp only [Sum.elim_inl, Sum.elim_inr, size_reportDrop, size_reportPartial]
  · exact r.size_reportPartial st _
  · rfl

theorem size_afterPhysical (st : Scratch) (offset type : ℕ) (fragment : Slice) :
    (r.afterPhysical st offset type fragment).elim (·.2.size) (·.2.size) = r.size := by
  unfold afterPhysical
  split_ifs
  · rfl
  · rfl
  · exact size_switchType _ _ _ _ _

/-- The loop of `ReadRecord`. -/
def readLoop (r : Reader) (st : Scratch) : Option Slice × Reader :=
  let offset := sub64 r.endOfBufferOffset r.buffer.length
  let p := r.readPhysicalRecord
  if p.1 = kEof then (none, { p.2.2 with resyncing := false })
  else
    match _h : p.2.2.afterPhysical st offset p.1 p.2.1 with
    | .inl (record, r) => (some record, r)
    | .inr (st, r) => readLoop r st
termination_by r.size
decreasing_by
  rename_i r₀ st₀ hmore
  have hsize := p.2.2.size_afterPhysical st₀ offset p.1 p.2.1
  rw [_h] at hsize
  change r.size = p.2.2.size at hsize
  rw [hsize]
  exact r₀.size_readPhysicalRecord hmore

/-- `SkipToInitialBlock()`. -/
def skipToInitialBlock : Bool × Reader :=
  let offsetInBlock := r.initialOffset % kBlockSize
  let start := r.initialOffset - offsetInBlock
  let start := if kBlockSize - 6 < offsetInBlock then start + kBlockSize else start
  let r := { r with endOfBufferOffset := start }
  if 0 < start then
    let skipped := r.file.skip start
    let r := { r with file := skipped.2 }
    if skipped.1 then (true, r) else (false, r.reportDrop start .io)
  else (true, r)

/-- `ReadRecord(record, scratch)`. -/
def readRecord : Option Slice × Reader :=
  if r.lastRecordOffset < r.initialOffset then
    let skipped := r.skipToInitialBlock
    if skipped.1 then skipped.2.readLoop ⟨false, [], 0⟩ else (none, skipped.2)
  else r.readLoop ⟨false, [], 0⟩

theorem size_readLoop (st : Scratch) (h : (r.readLoop st).1 ≠ none) : (r.readLoop st).2.size < r.size := by
  fun_induction readLoop r st with
  | case1 => exact absurd rfl h
  | case2 r st offset p hmore record r' hstep =>
    have hsize := p.2.2.size_afterPhysical st offset p.1 p.2.1
    rw [hstep] at hsize
    change r'.size = p.2.2.size at hsize
    change r'.size < r.size
    rw [hsize]
    exact r.size_readPhysicalRecord hmore
  | case3 r st offset p hmore st' r' hstep ih =>
    have hsize := p.2.2.size_afterPhysical st offset p.1 p.2.1
    rw [hstep] at hsize
    change r'.size = p.2.2.size at hsize
    have hlt := r.size_readPhysicalRecord hmore
    change p.2.2.size < r.size at hlt
    exact (ih h).trans (hsize ▸ hlt)

theorem size_skipToInitialBlock : r.skipToInitialBlock.2.size ≤ r.size := by
  have hskip : ∀ (f : SequentialFile) (n : ℕ), (f.skip n).2.rest.length ≤ f.rest.length := by
    intro f n
    unfold SequentialFile.skip
    split <;> simp [SequentialFile.after]
  unfold skipToInitialBlock
  dsimp only
  split_ifs
  all_goals first
    | exact le_rfl
    | exact Nat.add_le_add_right (hskip _ _) _
    | rw [size_reportDrop]; exact Nat.add_le_add_right (hskip _ _) _

theorem size_readRecord (h : r.readRecord.1 ≠ none) : r.readRecord.2.size < r.size := by
  unfold readRecord at h ⊢
  dsimp only at h ⊢
  split_ifs at h ⊢
  · exact (size_readLoop _ _ h).trans_le r.size_skipToInitialBlock
  · exact absurd rfl h
  · exact size_readLoop _ _ h

/-- The loop of the callers: all records up to the first call that returns false. -/
def readAll (r : Reader) : List Slice × Reader :=
  match _h : r.readRecord with
  | (none, r) => ([], r)
  | (some record, r) => (record :: (readAll r).1, (readAll r).2)
termination_by r.size
decreasing_by
  all_goals
    rename_i r₀
    have hsize := r₀.size_readRecord (by rw [_h]; exact Option.some_ne_none _)
    rwa [_h] at hsize

end Reader

/-! ## The fragments of a file -/

/-- What a record of a type is to the reader. -/
def toEvent (type : ℕ) (data : Slice) : Event UInt8 :=
  if type = 1 then .frag (.full data)
  else if type = 2 then .frag (.first data)
  else if type = 3 then .frag (.middle data)
  else if type = 4 then .frag (.last data)
  else if type = kEof then .stop
  else .bad

open Reader in
/-- The fragments in what is left of a block; `eof` tells that the file ends with it. -/
def parseBlock (checksum eof : Bool) (buffer : Slice) : List (Event UInt8) :=
  if buffer.length < kHeaderSize then []
  else if buffer.length < kHeaderSize + recordLength buffer then if eof then [] else [.bad]
  else if recordType buffer = 0 ∧ recordLength buffer = 0 then [.bad]
  else if checksum = true ∧ crcOk buffer = false then [.bad]
  else
    toEvent (recordType buffer) ((buffer.drop kHeaderSize).take (recordLength buffer)) ::
      parseBlock checksum eof (buffer.drop (kHeaderSize + recordLength buffer))
termination_by buffer.length
decreasing_by
  rw [List.length_drop]
  unfold kHeaderSize at *
  omega

/-- The fragments of a file, block by block. -/
def fileStream (checksum : Bool) (contents : Slice) : List (Event UInt8) :=
  if contents.length < kBlockSize then parseBlock checksum true contents
  else parseBlock checksum false (contents.take kBlockSize) ++
    fileStream checksum (contents.drop kBlockSize)
termination_by contents.length
decreasing_by
  rw [List.length_drop]
  unfold kBlockSize at *
  omega

namespace Reader

/-- What the reader has still to meet. -/
def stream (r : Reader) : List (Event UInt8) :=
  parseBlock r.checksum r.eof r.buffer ++
    if r.eof then [] else fileStream r.checksum r.file.rest

/-- A reader of a whole file, none of whose reads fails. -/
structure FromStart (r : Reader) : Prop where
  offset : r.initialOffset = 0
  resyncing : r.resyncing = false
  sound : r.file.Sound
  ended : r.eof = true → r.file.rest = []

/-- The readers meet the same, whatever they have reported. -/
structure Same (r r' : Reader) : Prop where
  file : r'.file = r.file
  checksum : r'.checksum = r.checksum
  buffer : r'.buffer = r.buffer
  eof : r'.eof = r.eof
  offset : r'.initialOffset = r.initialOffset
  resyncing : r'.resyncing = r.resyncing

theorem Same.refl (r : Reader) : Same r r := ⟨rfl, rfl, rfl, rfl, rfl, rfl⟩

theorem Same.stream {r r' : Reader} (h : Same r r') : r'.stream = r.stream := by
  rw [Reader.stream, Reader.stream, h.file, h.checksum, h.buffer, h.eof]

theorem Same.fromStart {r r' : Reader} (h : Same r r') (hr : FromStart r) : FromStart r' := by
  refine ⟨h.offset.trans hr.offset, h.resyncing.trans hr.resyncing, h.file ▸ hr.sound, fun he => ?_⟩
  rw [h.file]
  exact hr.ended (h.eof ▸ he)

theorem same_reportDrop (r : Reader) (bytes : ℕ) (reason : DropReason) :
    Same r (r.reportDrop bytes reason) := by
  unfold reportDrop
  split_ifs <;> exact ⟨rfl, rfl, rfl, rfl, rfl, rfl⟩

theorem same_reportPartial (r : Reader) (st : Scratch) (reason : String) :
    Same r (r.reportPartial st reason) := by
  unfold reportPartial reportCorruption
  split_ifs
  · exact same_reportDrop _ _ _
  · exact .refl r

/-- What reading a physical record does: it meets the next fragment, or the end. -/
structure Meets (r : Reader) (type : ℕ) (data : Slice) (r' : Reader) : Prop where
  fromStart : FromStart r'
  stream : r.stream = toEvent type data :: r'.stream
  reports : toEvent type data ≠ .bad → r'.reports = r.reports

variable {r : Reader}

theorem stream_of_empty (r : Reader) (hbuf : r.buffer.length < kHeaderSize) (heof : r.eof = false) :
    r.stream = fileStream r.checksum r.file.rest := by
  rw [Reader.stream, parseBlock, if_pos hbuf, heof, if_neg Bool.false_ne_true, List.nil_append]

theorem FromStart.dropped (h : FromStart r) : FromStart r.dropped :=
  ⟨h.offset, h.resyncing, h.sound, h.ended⟩

/-- A record that cannot be read is met as such, and the rest of the block with it. -/
theorem meets_bad (h : FromStart r) (hbad : parseBlock r.checksum r.eof r.buffer = [.bad]) {r' : Reader}
    (hr' : Same r.dropped r') : Meets r kBadRecord [] r' := by
  refine ⟨hr'.fromStart h.dropped, ?_, fun hne => absurd rfl hne⟩
  rw [hr'.stream, Reader.stream, hbad, Reader.stream, dropped, parseBlock,
    if_pos (show ([] : Slice).length < kHeaderSize by decide), List.nil_append]
  rfl

theorem kBadRecord_ne_kEof : kBadRecord ≠ kEof := by decide

theorem parseRecord_spec (h : FromStart r) (hbuf : ¬ r.buffer.length < kHeaderSize) :
    (r.parseRecord.1 = kEof ∧ (r.stream = [] ∨ ∃ es, r.stream = .stop :: es) ∧
      r.parseRecord.2.2.reports = r.reports) ∨
    (r.parseRecord.1 ≠ kEof ∧ Meets r r.parseRecord.1 r.parseRecord.2.1 r.parseRecord.2.2) := by
  have hparse := parseBlock.eq_def r.checksum r.eof r.buffer
  rw [if_neg hbuf] at hparse
  unfold parseRecord
  dsimp only
  by_cases hlen : r.buffer.length < kHeaderSize + recordLength r.buffer
  · rw [if_pos hlen] at hparse ⊢
    by_cases heof : r.eof = true
    · rw [if_pos heof] at hparse ⊢
      refine .inl ⟨rfl, .inl ?_, rfl⟩
      rw [Reader.stream, hparse, if_pos heof, List.nil_append]
    · rw [if_neg heof] at hparse ⊢
      exact .inr ⟨kBadRecord_ne_kEof, meets_bad h hparse (same_reportDrop _ _ _)⟩
  rw [if_neg hlen] at hparse ⊢
  by_cases hzero : recordType r.buffer = 0 ∧ recordLength r.buffer = 0
  · rw [if_pos hzero] at hparse ⊢
    exact .inr ⟨kBadRecord_ne_kEof, meets_bad h hparse (.refl _)⟩
  rw [if_neg hzero] at hparse ⊢
  by_cases hcrc : r.checksum = true ∧ crcOk r.buffer = false
  · rw [if_pos hcrc] at hparse ⊢
    exact .inr ⟨kBadRecord_ne_kEof, meets_bad h hparse (same_reportDrop _ _ _)⟩
  rw [if_neg hcrc] at hparse ⊢
  rw [h.offset, if_neg (Nat.not_lt_zero _)]
  dsimp only
  have hstream : r.stream = toEvent (recordType r.buffer)
      ((r.buffer.drop kHeaderSize).take (recordLength r.buffer)) ::
        Reader.stream { r with buffer := r.buffer.drop (kHeaderSize + recordLength r.buffer) } := by
    rw [Reader.stream, hparse, List.cons_append]
    rfl
  by_cases htype : recordType r.buffer = kEof
  · rw [htype] at hstream
    exact .inl ⟨htype, .inr ⟨_, hstream⟩, rfl⟩
  · exact .inr ⟨htype, ⟨rfl, h.resyncing, h.sound, h.ended⟩, hstream, fun _ => rfl⟩

/-- **Reading a physical record meets the next fragment of the file, or its end.** -/
theorem readPhysicalRecord_spec (h : FromStart r) :
    (r.readPhysicalRecord.1 = kEof ∧ (r.stream = [] ∨ ∃ es, r.stream = .stop :: es) ∧
      r.readPhysicalRecord.2.2.reports = r.reports) ∨
    (r.readPhysicalRecord.1 ≠ kEof ∧
      Meets r r.readPhysicalRecord.1 r.readPhysicalRecord.2.1 r.readPhysicalRecord.2.2) := by
  fun_induction readPhysicalRecord r with
  | case1 r hbuf heof =>
    refine .inl ⟨rfl, .inl ?_, rfl⟩
    rw [Reader.stream, parseBlock, if_pos hbuf, heof, if_pos rfl, List.nil_append]
  | case2 r hbuf heof block offset hok ih =>
    have hblock : block = _ := SequentialFile.read_of_ok hok
    rw [Bool.not_eq_true] at heof
    have hnext : FromStart { r with
        file := block.2.2
        buffer := block.2.1
        eof := block.2.1.length < kBlockSize
        endOfBufferOffset := offset } := by
      refine ⟨h.offset, h.resyncing, ?_, fun he => ?_⟩
      · rw [hblock]
        exact fun n => h.sound (n + 1)
      · rw [hblock] at he ⊢
        simp only [List.length_take, decide_eq_true_eq] at he
        exact List.drop_eq_nil_of_le (by omega)
    -- the block that is read is the first of what is left of the file
    have hstream : r.stream = Reader.stream { r with
        file := block.2.2
        buffer := block.2.1
        eof := block.2.1.length < kBlockSize
        endOfBufferOffset := offset } := by
      rw [stream_of_empty r hbuf heof, fileStream, Reader.stream]
      simp only [hblock, List.length_take, decide_eq_true_eq]
      by_cases hshort : r.file.rest.length < kBlockSize
      · rw [if_pos hshort, if_pos (by omega), List.append_nil, List.take_of_length_le (by omega),
          decide_eq_true (by omega)]
      · rw [if_neg hshort, if_neg (by omega), decide_eq_false (by omega)]
        rfl
    rcases ih hnext with ⟨hend, hs, hrep⟩ | ⟨hmore, hmeets⟩
    · exact .inl ⟨hend, hstream ▸ hs, hrep⟩
    · exact .inr ⟨hmore, hmeets.fromStart, hstream ▸ hmeets.stream, hmeets.reports⟩
  | case3 r hbuf heof block offset failed hfail =>
    have hok : block.1 = true := by
      change (r.file.read kBlockSize).1 = true
      rw [SequentialFile.read, h.sound 0]
    exact absurd hok failed
  | case4 r hbuf => exact parseRecord_spec h hbuf

/-! ## The loop puts the fragments together -/

/-- What the reader has of the record it is in. -/
def Scratch.state (st : Scratch) : Option Slice :=
  if st.inFragmentedRecord then some st.scratch else none

theorem Scratch.state_of_in {st : Scratch} (h : st.inFragmentedRecord = true) :
    st.state = some st.scratch := if_pos h

theorem Scratch.state_of_not_in {st : Scratch} (h : ¬ st.inFragmentedRecord = true) :
    st.state = none := if_neg h

/-- Outside a record there is no partial one to report. -/
theorem reportPartial_of_none {st : Scratch} (h : st.state = none) (reason : String) :
    r.reportPartial st reason = r := by
  unfold reportPartial
  refine if_neg fun hin => ?_
  rw [Scratch.state_of_in hin.1] at h
  exact Option.some_ne_none _ h

/-- A round that goes from `s` to `s'` on an event, without a report if nothing is dropped. -/
structure Rounds (r : Reader) (s : Option Slice) (e : Event UInt8) (r' : Reader)
    (out : List Slice) (s' : Option Slice) : Prop where
  same : Same r r'
  assemble : ∀ es, assemble s (e :: es) = out ++ Fragments.assemble s' es
  quiet : ∀ es, quiet s (e :: es) = true → Fragments.quiet s' es = true ∧ r'.reports = r.reports

theorem switchType_inl {st : Scratch} {offset type : ℕ} {data : Slice} {record : Slice} {r' : Reader}
    (h : r.switchType st offset type data = .inl (record, r')) :
    Rounds r st.state (toEvent type data) r' [record] none := by
  unfold switchType at h
  dsimp only at h
  split_ifs at h with h₁ h₂ h₃ h₃in h₄ h₄in
  · obtain ⟨rfl, rfl⟩ := Prod.mk.inj (Sum.inl.inj h)
    subst h₁
    have hsame := same_reportPartial r st "partial record without end(1)"
    refine ⟨⟨hsame.file, hsame.checksum, hsame.buffer, hsame.eof, hsame.offset, hsame.resyncing⟩, ?_, ?_⟩
    · intro es
      cases st.state <;> rfl
    · intro es hq
      cases hs : st.state with
      | none =>
        rw [hs] at hq
        refine ⟨hq, ?_⟩
        change (r.reportPartial st _).reports = _
        rw [reportPartial_of_none hs]
      | some q =>
        rw [hs] at hq
        exact absurd hq Bool.false_ne_true
  · obtain ⟨rfl, rfl⟩ := Prod.mk.inj (Sum.inl.inj h)
    subst h₄
    rw [Scratch.state_of_in h₄in]
    exact ⟨⟨rfl, rfl, rfl, rfl, rfl, rfl⟩, fun _ => rfl, fun _ hq => ⟨hq, rfl⟩⟩

theorem toEvent_bad {type : ℕ} (h₁ : type ≠ 1) (h₂ : type ≠ 2) (h₃ : type ≠ 3) (h₄ : type ≠ 4)
    (h₅ : type ≠ kEof) (data : Slice) : toEvent type data = .bad := by
  rw [toEvent, if_neg h₁, if_neg h₂, if_neg h₃, if_neg h₄, if_neg h₅]

/-- What cannot be read is dropped, with what there is of the record. -/
theorem rounds_bad (s : Option Slice) {r' : Reader} (h : Same r r') : Rounds r s .bad r' [] none := by
  refine ⟨h, fun _ => ?_, fun _ hq => ?_⟩
  · cases s <;> rfl
  · cases s <;> exact absurd hq Bool.false_ne_true

theorem switchType_inr {st : Scratch} {offset type : ℕ} (hne : type ≠ kEof) {data : Slice}
    {st' : Scratch} {r' : Reader} (h : r.switchType st offset type data = .inr (st', r')) :
    Rounds r st.state (toEvent type data) r' [] st'.state := by
  unfold switchType at h
  dsimp only at h
  split_ifs at h with h₁ h₂ h₃ h₃in h₄ h₄in hbad hbadin
  · obtain ⟨rfl, rfl⟩ := Prod.mk.inj (Sum.inr.inj h)
    subst h₂
    refine ⟨same_reportPartial r st _, ?_, ?_⟩
    · intro es
      cases st.state <;> rfl
    · intro es hq
      cases hs : st.state with
      | none =>
        rw [hs] at hq
        exact ⟨hq, congrArg Reader.reports (reportPartial_of_none hs _)⟩
      | some q =>
        rw [hs] at hq
        exact absurd hq Bool.false_ne_true
  · obtain ⟨rfl, rfl⟩ := Prod.mk.inj (Sum.inr.inj h)
    subst h₃
    have hgrown : Scratch.state { st with scratch := st.scratch ++ data } = some (st.scratch ++ data) :=
      Scratch.state_of_in h₃in
    rw [Scratch.state_of_in h₃in, hgrown]
    exact ⟨.refl r, fun _ => rfl, fun _ hq => ⟨hq, rfl⟩⟩
  · obtain ⟨rfl, rfl⟩ := Prod.mk.inj (Sum.inr.inj h)
    subst h₃
    rw [Scratch.state_of_not_in h₃in]
    exact ⟨same_reportDrop _ _ _, fun _ => rfl, fun _ hq => absurd hq Bool.false_ne_true⟩
  · obtain ⟨rfl, rfl⟩ := Prod.mk.inj (Sum.inr.inj h)
    subst h₄
    rw [Scratch.state_of_not_in h₄in]
    exact ⟨same_reportDrop _ _ _, fun _ => rfl, fun _ hq => absurd hq Bool.false_ne_true⟩
  all_goals
    obtain ⟨rfl, rfl⟩ := Prod.mk.inj (Sum.inr.inj h)
    rw [toEvent_bad h₁ h₂ h₃ h₄ hne]
  · exact rounds_bad _ (same_reportDrop _ _ _)
  · rw [Scratch.state_of_not_in hbadin]
    exact rounds_bad _ (.refl r)
  · exact rounds_bad _ (same_reportDrop _ _ _)
  · exact rounds_bad _ (same_reportDrop _ _ _)

theorem afterPhysical_eq (h : r.resyncing = false) (st : Scratch) (offset type : ℕ) (data : Slice) :
    r.afterPhysical st offset type data = r.switchType st offset type data := by
  have hr : ({ r with resyncing := false } : Reader) = r := by rw [← h]
  rw [afterPhysical, h, if_neg (fun hc => Bool.false_ne_true hc.1),
    if_neg (fun hc => Bool.false_ne_true hc.1), hr]

/-- What `ReadRecord` does to what is left of the file: it returns the next record of it, or there is
none. -/
structure Reads (r : Reader) (s : Option Slice) (result : Option Slice) (r' : Reader) : Prop where
  fromStart : result ≠ none → FromStart r'
  assemble : Fragments.assemble s r.stream =
    result.elim [] fun record => record :: Fragments.assemble none r'.stream
  reports : quiet s r.stream = true →
    (result ≠ none → quiet none r'.stream = true) ∧ r'.reports = r.reports

theorem ne_bad_of_quiet {s : Option Slice} {e : Event UInt8} {es : List (Event UInt8)}
    (h : quiet s (e :: es) = true) : e ≠ .bad := by
  rintro rfl
  cases s <;> exact Bool.false_ne_true h

theorem readLoop_spec (st : Scratch) (h : FromStart r) :
    Reads r st.state (r.readLoop st).1 (r.readLoop st).2 := by
  fun_induction readLoop r st with
  | case1 r st p hend =>
    rcases readPhysicalRecord_spec h with ⟨-, hs, hrep⟩ | ⟨hmore, -⟩
    · refine ⟨fun hne => absurd rfl hne, ?_, fun _ => ⟨fun hne => absurd rfl hne, hrep⟩⟩
      rcases hs with hs | ⟨es, hs⟩
      · rw [hs, Fragments.assemble]
        rfl
      · rw [hs, Fragments.assemble]
        rfl
    · exact absurd hend hmore
  | case2 r st offset p =>
    rename_i hmore record r' hstep
    rcases readPhysicalRecord_spec h with ⟨hend, -⟩ | ⟨-, hmeets⟩
    · exact absurd hend hmore
    · rw [afterPhysical_eq hmeets.fromStart.resyncing] at hstep
      have hround := switchType_inl hstep
      refine ⟨fun _ => hround.same.fromStart hmeets.fromStart, ?_, fun hq => ?_⟩
      · rw [hmeets.stream, hround.assemble, hround.same.stream]
        rfl
      · rw [hmeets.stream] at hq
        obtain ⟨hq', hrep⟩ := hround.quiet _ hq
        exact ⟨fun _ => hround.same.stream ▸ hq', hrep.trans (hmeets.reports (ne_bad_of_quiet hq))⟩
  | case3 r st offset p =>
    rename_i hmore st' r' hstep ih
    rcases readPhysicalRecord_spec h with ⟨hend, -⟩ | ⟨-, hmeets⟩
    · exact absurd hend hmore
    · rw [afterPhysical_eq hmeets.fromStart.resyncing] at hstep
      have hround := switchType_inr hmore hstep
      have hreads := ih (hround.same.fromStart hmeets.fromStart)
      refine ⟨hreads.fromStart, ?_, fun hq => ?_⟩
      · rw [hmeets.stream, hround.assemble, List.nil_append, ← hround.same.stream, hreads.assemble]
      · rw [hmeets.stream] at hq
        obtain ⟨hq', hrep⟩ := hround.quiet _ hq
        obtain ⟨hq'', hrep'⟩ := hreads.reports (hround.same.stream ▸ hq')
        exact ⟨hq'', hrep'.trans (hrep.trans (hmeets.reports (ne_bad_of_quiet hq)))⟩

theorem readRecord_spec (h : FromStart r) : Reads r none r.readRecord.1 r.readRecord.2 := by
  have hrec : r.readRecord = r.readLoop ⟨false, [], 0⟩ := by
    rw [readRecord, h.offset, if_neg (Nat.not_lt_zero _)]
  rw [hrec]
  exact readLoop_spec ⟨false, [], 0⟩ h

/-- **What is read of a file is what its fragments are put together to**, and if nothing was dropped
nothing was reported. -/
theorem readAll_spec (h : FromStart r) : r.readAll.1 = assemble none r.stream ∧
    (quiet none r.stream = true → r.readAll.2.reports = r.reports) := by
  fun_induction readAll r with
  | case1 r r' hread =>
    have hreads := readRecord_spec h
    rw [hread] at hreads
    exact ⟨hreads.assemble.symm, fun hq => (hreads.reports hq).2⟩
  | case2 r record r' hread ih =>
    have hreads := readRecord_spec h
    rw [hread] at hreads
    obtain ⟨hall, hrep⟩ := ih (hreads.fromStart (Option.some_ne_none _))
    refine ⟨?_, fun hq => ?_⟩
    · rw [hreads.assemble, hall]
      rfl
    · obtain ⟨hq', hrep'⟩ := hreads.reports hq
      exact (hrep (hq' (Option.some_ne_none _))).trans hrep'

/-- A reader of a whole file, as its callers make it. -/
theorem fromStart_new (contents : Slice) (reporter checksum : Bool) :
    FromStart (new ⟨contents, fun _ => none⟩ reporter checksum 0) :=
  ⟨rfl, rfl, fun _ => rfl, fun h => absurd h Bool.false_ne_true⟩

theorem stream_new (contents : Slice) (reporter checksum : Bool) :
    (new ⟨contents, fun _ => none⟩ reporter checksum 0).stream = fileStream checksum contents :=
  stream_of_empty _ (show ([] : Slice).length < kHeaderSize by decide) rfl

end Reader

end Mdb.Ldb
