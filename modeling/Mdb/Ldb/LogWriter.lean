import Mdb.Lib.Fragments
import Mdb.Ldb.Crc

/-!
# Writing a log

`db/log_writer.cc`: a log is a sequence of blocks of 32768 bytes. A record is written as one or more
fragments, each with a header of seven bytes and inside one block; what is left of a block that has
no room for a header is filled with zeros.

* `WritableFile`: the file, with the outcome of each call; `RecordType`, `physicalRecord`;
* `Writer.emitPhysicalRecord`, `Writer.addRecord`, as in the source;
* `encFrag`, `Laid`: the bytes of a fragment; a file laid out in blocks of fragments;
* **`Laid.addRecord`**: `AddRecord` keeps the layout, and what it adds to it is the record cut into
  fragments.
-/

namespace Mdb.Ldb

open Fragments

/-! ## `log_format.h` -/

/-- `kBlockSize`. -/
def kBlockSize : ℕ := 32768

/-- `kHeaderSize`. -/
def kHeaderSize : ℕ := 4 + 2 + 1

/-- `RecordType`, without `kZeroType`, which is never written. -/
inductive RecordType where
  | full
  | first
  | middle
  | last
  deriving DecidableEq

/-- The number of a `RecordType`. -/
def RecordType.toByte : RecordType → UInt8
  | .full => 1
  | .first => 2
  | .middle => 3
  | .last => 4

/-! ## Files -/

/-- A `WritableFile`: what was appended, how much of it was forced to the disk, and what the calls to
come do. A call that fails has written some of its bytes. -/
structure WritableFile where
  contents : Slice
  synced : ℕ
  script : ℕ → Option ℕ

namespace WritableFile

variable (f : WritableFile)

/-- The file after a call. -/
def next : WritableFile := { f with script := fun n => f.script (n + 1) }

/-- `Append(data)`. -/
def append (data : Slice) : Bool × WritableFile :=
  match f.script 0 with
  | none => (true, { f.next with contents := f.contents ++ data })
  | some k => (false, { f.next with contents := f.contents ++ data.take k })

/-- `Flush()`. -/
def flush : Bool × WritableFile := (f.script 0 = none, f.next)

/-- `Sync()`. -/
def sync : Bool × WritableFile :=
  match f.script 0 with
  | none => (true, { f.next with synced := f.contents.length })
  | some _ => (false, f.next)

/-- No call fails. -/
def Sound : Prop := ∀ n, f.script n = none

end WritableFile

/-! ## `Writer` -/

/-- The checksum of a record: `type_crc_[t]` extended by the data. Where they lie in memory makes no
difference. -/
def recordCrc (t : UInt8) (data : Slice) : BitVec 32 := extend 0 (value 0 [t]) data

/-- The header of a record, and its data. -/
def physicalRecord (t : RecordType) (data : Slice) : Slice :=
  let n := data.length
  let crc := mask (recordCrc t.toByte data)
  encodeFixed32 crc ++ [UInt8.ofNat (n &&& 0xff), UInt8.ofNat (n >>> 8), t.toByte] ++ data

/-- `log::Writer`. -/
structure Writer where
  dest : WritableFile
  blockOffset : ℕ

namespace Writer

variable (w : Writer)

/-- `EmitPhysicalRecord(t, ptr, n)`: the header and the data are appended one after the other. -/
def emitPhysicalRecord (t : RecordType) (data : Slice) : Bool × Writer :=
  let record := physicalRecord t data
  let offset := w.blockOffset + (kHeaderSize + data.length)
  let header := w.dest.append (record.take kHeaderSize)
  if header.1 then
    let payload := header.2.append (record.drop kHeaderSize)
    if payload.1 then (payload.2.flush.1, ⟨payload.2.flush.2, offset⟩)
    else (false, ⟨payload.2, offset⟩)
  else (false, ⟨header.2, offset⟩)

/-- The start of a round of `AddRecord`: a block without room for a header is filled with zeros. -/
def switchBlock : Writer :=
  let leftover := kBlockSize - w.blockOffset
  if leftover < kHeaderSize then
    if 0 < leftover then ⟨(w.dest.append (List.replicate leftover 0)).2, 0⟩ else ⟨w.dest, 0⟩
  else w

/-- The type of a fragment. -/
def fragmentType (begin atEnd : Bool) : RecordType :=
  match begin, atEnd with
  | true, true => .full
  | true, false => .first
  | false, true => .last
  | false, false => .middle

/-- The length of the next fragment, in a block with room for a header. -/
def fragmentLength (left : ℕ) : ℕ :=
  let avail := kBlockSize - w.blockOffset - kHeaderSize
  if left < avail then left else avail

theorem blockOffset_emitPhysicalRecord (t : RecordType) (data : Slice) :
    (w.emitPhysicalRecord t data).2.blockOffset = w.blockOffset + (kHeaderSize + data.length) := by
  unfold emitPhysicalRecord
  dsimp only
  split_ifs <;> rfl

theorem blockOffset_switchBlock_le : w.switchBlock.blockOffset + kHeaderSize ≤ kBlockSize := by
  unfold switchBlock
  dsimp only
  split_ifs with h₁ h₂
  · change 0 + kHeaderSize ≤ kBlockSize
    decide
  · change 0 + kHeaderSize ≤ kBlockSize
    decide
  · unfold kHeaderSize kBlockSize at *
    omega

theorem blockOffset_switchBlock_of_full (h : kBlockSize < w.blockOffset + kHeaderSize) :
    w.switchBlock.blockOffset = 0 := by
  have hlt : kBlockSize - w.blockOffset < kHeaderSize := by
    unfold kHeaderSize kBlockSize at *
    omega
  rw [switchBlock, if_pos hlt]
  split_ifs <;> rfl

/-- The loop of `AddRecord`. A block with room for nothing but a header gets an empty fragment. -/
def addLoop (w : Writer) (begin : Bool) (data : Slice) : Bool × Writer :=
  let n := w.switchBlock.fragmentLength data.length
  let r := w.switchBlock.emitPhysicalRecord (fragmentType begin (data.length = n)) (data.take n)
  if r.1 = true ∧ 0 < (data.drop n).length then r.2.addLoop false (data.drop n) else r
termination_by
  2 * data.length + if w.switchBlock.blockOffset + kHeaderSize = kBlockSize then 1 else 0
decreasing_by
  rename_i h
  have hle := w.blockOffset_switchBlock_le
  have hoff : r.2.blockOffset = _ := w.switchBlock.blockOffset_emitPhysicalRecord _ _
  have hn : n = if data.length < kBlockSize - w.switchBlock.blockOffset - kHeaderSize then data.length
    else kBlockSize - w.switchBlock.blockOffset - kHeaderSize := rfl
  have hdrop : (data.drop n).length = data.length - n := List.length_drop
  have hpos := h.2
  change 2 * (data.drop n).length + _ < _
  rw [hdrop] at hpos ⊢
  by_cases hroom : w.switchBlock.blockOffset + kHeaderSize = kBlockSize
  · -- an empty fragment: the next one starts a block
    have hn0 : n = 0 := by
      rw [hn]
      split_ifs <;> omega
    have hfull : kBlockSize < r.2.blockOffset + kHeaderSize := by
      rw [hoff]
      unfold kHeaderSize kBlockSize at *
      omega
    rw [if_pos hroom, r.2.blockOffset_switchBlock_of_full hfull, if_neg (by decide)]
    omega
  · have hn1 : 0 < n := by
      rw [hn]
      split_ifs <;> omega
    rw [if_neg hroom]
    split_ifs <;> omega

/-- `AddRecord(slice)`. -/
def addRecord (data : Slice) : Bool × Writer := w.addLoop true data

end Writer

/-! ## Layout -/

/-- The bytes of a fragment. -/
def encFrag : Frag UInt8 → Slice
  | .full p => physicalRecord .full p
  | .first p => physicalRecord .first p
  | .middle p => physicalRecord .middle p
  | .last p => physicalRecord .last p

/-- The bytes of some fragments. -/
def encFrags (fs : List (Frag UInt8)) : Slice := fs.flatMap encFrag

/-- The bytes of a block. -/
def encBlock (fs : List (Frag UInt8)) : Slice :=
  encFrags fs ++ List.replicate (kBlockSize - (encFrags fs).length) 0

/-- **The layout of a log**: blocks that have no room for a header, and the one that is written
to. -/
structure Laid (w : Writer) (blocks : List (List (Frag UInt8))) (cur : List (Frag UInt8)) : Prop where
  sound : w.dest.Sound
  contents : w.dest.contents = blocks.flatMap encBlock ++ encFrags cur
  offset : w.blockOffset = (encFrags cur).length
  le : w.blockOffset ≤ kBlockSize
  full : ∀ fs ∈ blocks, (encFrags fs).length ≤ kBlockSize ∧
    kBlockSize < (encFrags fs).length + kHeaderSize

namespace WritableFile

variable {f : WritableFile}

theorem Sound.append (h : f.Sound) (data : Slice) : (f.append data).1 = true ∧
    (f.append data).2.Sound ∧ (f.append data).2.contents = f.contents ++ data ∧
    (f.append data).2.synced = f.synced := by
  rw [WritableFile.append, h 0]
  exact ⟨rfl, fun n => h (n + 1), rfl, rfl⟩

theorem Sound.flush (h : f.Sound) : f.flush.1 = true ∧ f.flush.2.Sound ∧
    f.flush.2.contents = f.contents ∧ f.flush.2.synced = f.synced := by
  rw [WritableFile.flush, h 0]
  exact ⟨rfl, fun n => h (n + 1), rfl, rfl⟩

end WritableFile

theorem length_physicalRecord (t : RecordType) (data : Slice) :
    (physicalRecord t data).length = kHeaderSize + data.length := by
  simp only [physicalRecord, encodeFixed32, List.length_append, List.length_cons, List.length_nil,
    kHeaderSize]

theorem Writer.emit_of_sound {w : Writer} (h : w.dest.Sound) (t : RecordType) (data : Slice) :
    (w.emitPhysicalRecord t data).1 = true ∧ (w.emitPhysicalRecord t data).2.dest.Sound ∧
      (w.emitPhysicalRecord t data).2.dest.contents = w.dest.contents ++ physicalRecord t data ∧
      (w.emitPhysicalRecord t data).2.dest.synced = w.dest.synced := by
  obtain ⟨ok₁, s₁, c₁, y₁⟩ := h.append ((physicalRecord t data).take kHeaderSize)
  obtain ⟨ok₂, s₂, c₂, y₂⟩ := s₁.append ((physicalRecord t data).drop kHeaderSize)
  obtain ⟨ok₃, s₃, c₃, y₃⟩ := s₂.flush
  unfold emitPhysicalRecord
  dsimp only
  rw [if_pos ok₁, if_pos ok₂]
  refine ⟨ok₃, s₃, ?_, by rw [y₃, y₂, y₁]⟩
  rw [c₃, c₂, c₁, List.append_assoc, List.take_append_drop]

/-! ## Where the fragments are -/

/-- The fragments, each with where it ends. -/
def placeFrags (off : ℕ) : List (Frag UInt8) → List (Frag UInt8 × ℕ)
  | [] => []
  | f :: fs => (f, off + (encFrag f).length) :: placeFrags (off + (encFrag f).length) fs

/-- The fragments of the blocks, each with where it ends. -/
def placeBlocks (off : ℕ) : List (List (Frag UInt8)) → List (Frag UInt8 × ℕ)
  | [] => []
  | fs :: blocks => placeFrags off fs ++ placeBlocks (off + kBlockSize) blocks

/-- The fragments of a log, each with where it ends. -/
def places (blocks : List (List (Frag UInt8))) (cur : List (Frag UInt8)) : List (Frag UInt8 × ℕ) :=
  placeBlocks 0 (blocks ++ [cur])

theorem encFrags_append (a b : List (Frag UInt8)) : encFrags (a ++ b) = encFrags a ++ encFrags b :=
  List.flatMap_append

theorem encFrags_singleton (f : Frag UInt8) : encFrags [f] = encFrag f := List.append_nil _

theorem placeFrags_append (a b : List (Frag UInt8)) : ∀ off,
    placeFrags off (a ++ b) = placeFrags off a ++ placeFrags (off + (encFrags a).length) b := by
  induction a with
  | nil => exact fun _ => rfl
  | cons f a ih =>
    intro off
    have hlen : (encFrags (f :: a)).length = (encFrag f).length + (encFrags a).length :=
      List.length_append
    rw [List.cons_append, placeFrags, ih, placeFrags, hlen, List.cons_append, Nat.add_assoc]

theorem placeBlocks_append (a b : List (List (Frag UInt8))) : ∀ off,
    placeBlocks off (a ++ b) = placeBlocks off a ++ placeBlocks (off + kBlockSize * a.length) b := by
  induction a with
  | nil => exact fun _ => rfl
  | cons fs a ih =>
    intro off
    rw [List.cons_append, placeBlocks, ih, placeBlocks, List.length_cons, List.append_assoc,
      Nat.mul_add_one, Nat.add_assoc, Nat.add_comm kBlockSize]

theorem places_close (blocks : List (List (Frag UInt8))) (cur : List (Frag UInt8)) :
    places (blocks ++ [cur]) [] = places blocks cur := by
  rw [places, placeBlocks_append, places]
  exact List.append_nil _

theorem places_snoc (blocks : List (List (Frag UInt8))) (cur : List (Frag UInt8)) (f : Frag UInt8) :
    places blocks (cur ++ [f]) = places blocks cur ++
      [(f, kBlockSize * blocks.length + (encFrags (cur ++ [f])).length)] := by
  have hone : ∀ off fs, placeBlocks off [fs] = placeFrags off fs := fun _ _ => List.append_nil _
  rw [places, places, placeBlocks_append, placeBlocks_append, hone, hone, placeFrags_append,
    ← List.append_assoc, encFrags_append, encFrags_singleton, List.length_append, Nat.zero_add,
    ← Nat.add_assoc]
  rfl

/-! ## What the writer does to the layout -/

/-- The fragment of a type. -/
def RecordType.frag : RecordType → Slice → Frag UInt8
  | .full => .full
  | .first => .first
  | .middle => .middle
  | .last => .last

theorem encFrag_frag (t : RecordType) (data : Slice) : encFrag (t.frag data) = physicalRecord t data := by
  cases t <;> rfl

namespace Laid

variable {w : Writer} {blocks : List (List (Frag UInt8))} {cur : List (Frag UInt8)}

theorem length_encBlock {fs : List (Frag UInt8)} (h : (encFrags fs).length ≤ kBlockSize) :
    (encBlock fs).length = kBlockSize := by
  rw [encBlock, List.length_append, List.length_replicate]
  omega

theorem length_contents (h : Laid w blocks cur) :
    w.dest.contents.length = kBlockSize * blocks.length + w.blockOffset := by
  have hblocks : ∀ l : List (List (Frag UInt8)), (∀ fs ∈ l, (encFrags fs).length ≤ kBlockSize) →
      (l.flatMap encBlock).length = kBlockSize * l.length := by
    intro l hl
    induction l with
    | nil => rfl
    | cons fs l ih =>
      rw [List.flatMap_cons, List.length_append, length_encBlock (hl fs List.mem_cons_self),
        ih fun g hg => hl g (List.mem_cons_of_mem _ hg), List.length_cons, Nat.mul_add_one, Nat.add_comm]
  rw [h.contents, List.length_append, hblocks blocks fun fs hfs => (h.full fs hfs).1, h.offset]

/-- A block without room for a header is closed. -/
theorem switchBlock (h : Laid w blocks cur) : ∃ blocks' cur', Laid w.switchBlock blocks' cur' ∧
    places blocks' cur' = places blocks cur ∧ w.dest.contents <+: w.switchBlock.dest.contents ∧
    w.switchBlock.dest.synced = w.dest.synced := by
  unfold Writer.switchBlock
  dsimp only
  split_ifs with hfull hpos
  · obtain ⟨-, hs, hc, hy⟩ := h.sound.append (List.replicate (kBlockSize - w.blockOffset) 0)
    refine ⟨blocks ++ [cur], [], ⟨hs, ?_, rfl, Nat.zero_le _, ?_⟩, places_close _ _, ?_, hy⟩
    · change (w.dest.append _).2.contents = _
      rw [hc, h.contents, List.flatMap_append, h.offset, List.append_assoc]
      simp [encBlock, encFrags]
    · intro fs hfs
      rcases List.mem_append.mp hfs with hfs | hfs
      · exact h.full fs hfs
      · have hle := h.le
        rw [List.mem_singleton.mp hfs, ← h.offset]
        omega
    · change _ <+: (w.dest.append _).2.contents
      rw [hc]
      exact List.prefix_append _ _
  · refine ⟨blocks ++ [cur], [], ⟨h.sound, ?_, rfl, Nat.zero_le _, ?_⟩, places_close _ _,
      List.prefix_refl _, rfl⟩
    · have hzero : kBlockSize - (encFrags cur).length = 0 := by
        rw [← h.offset]
        omega
      have hblock : encBlock cur = encFrags cur := by
        rw [encBlock, hzero, List.replicate_zero, List.append_nil]
      change w.dest.contents = _
      rw [h.contents, List.flatMap_append]
      simp [hblock, encFrags]
    · intro fs hfs
      rcases List.mem_append.mp hfs with hfs | hfs
      · exact h.full fs hfs
      · have hle := h.le
        rw [List.mem_singleton.mp hfs, ← h.offset]
        omega
  · exact ⟨blocks, cur, h, rfl, List.prefix_refl _, rfl⟩

/-- A fragment with room in the block is added to it. -/
theorem emit (h : Laid w blocks cur) (t : RecordType) {data : Slice}
    (hroom : w.blockOffset + (kHeaderSize + data.length) ≤ kBlockSize) :
    (w.emitPhysicalRecord t data).1 = true ∧
      Laid (w.emitPhysicalRecord t data).2 blocks (cur ++ [t.frag data]) ∧
      w.dest.contents <+: (w.emitPhysicalRecord t data).2.dest.contents ∧
      (w.emitPhysicalRecord t data).2.dest.synced = w.dest.synced := by
  obtain ⟨hok, hs, hc, hy⟩ := Writer.emit_of_sound h.sound t data
  have hoff := w.blockOffset_emitPhysicalRecord t data
  refine ⟨hok, ⟨hs, ?_, ?_, by rw [hoff]; exact hroom, h.full⟩, ?_, hy⟩
  · rw [hc, h.contents, encFrags_append, encFrags_singleton, encFrag_frag, List.append_assoc]
  · rw [hoff, encFrags_append, List.length_append, encFrags_singleton, encFrag_frag,
      length_physicalRecord, h.offset]
  · rw [hc]
    exact List.prefix_append _ _

end Laid

/-- The fragments are the data cut up: a record if it is at its beginning, what is left of one
else. -/
def CutsFrom (begin : Bool) (data : Slice) (fs : List (Frag UInt8)) : Prop :=
  if begin then Cuts data fs else Tail data fs

theorem CutsFrom.one (begin : Bool) (data : Slice) :
    CutsFrom begin data [(Writer.fragmentType begin true).frag data] := by
  cases begin
  · exact Tail.last data
  · exact Cuts.full data

theorem CutsFrom.cons (begin : Bool) (p : Slice) {r : Slice} {fs : List (Frag UInt8)}
    (h : CutsFrom false r fs) :
    CutsFrom begin (p ++ r) ((Writer.fragmentType begin false).frag p :: fs) := by
  cases begin
  · exact Tail.middle p h
  · exact Cuts.first p h

theorem Writer.fragmentLength_le (w : Writer) (left : ℕ) : w.fragmentLength left ≤ left := by
  unfold fragmentLength
  dsimp only
  split_ifs <;> omega

theorem Writer.fragmentLength_fits (w : Writer) (left : ℕ) :
    w.fragmentLength left ≤ kBlockSize - w.blockOffset - kHeaderSize := by
  unfold fragmentLength
  dsimp only
  split_ifs <;> omega

/-- One round of the loop adds one fragment. -/
theorem Laid.round {w : Writer} {blocks : List (List (Frag UInt8))} {cur : List (Frag UInt8)}
    (h : Laid w blocks cur) (t : RecordType) (data : Slice) {n : ℕ}
    (hn : n = w.switchBlock.fragmentLength data.length) :
    (w.switchBlock.emitPhysicalRecord t (data.take n)).1 = true ∧
    ∃ blocks' cur' e, Laid (w.switchBlock.emitPhysicalRecord t (data.take n)).2 blocks' cur' ∧
      places blocks' cur' = places blocks cur ++ [(t.frag (data.take n), e)] ∧
      w.dest.contents <+: (w.switchBlock.emitPhysicalRecord t (data.take n)).2.dest.contents ∧
      (w.switchBlock.emitPhysicalRecord t (data.take n)).2.dest.synced = w.dest.synced := by
  obtain ⟨blocks₁, cur₁, h₁, hp₁, hpre₁, hy₁⟩ := h.switchBlock
  have hroom : w.switchBlock.blockOffset + (kHeaderSize + (data.take n).length) ≤ kBlockSize := by
    have hle := w.blockOffset_switchBlock_le
    have hfits := w.switchBlock.fragmentLength_fits data.length
    rw [List.length_take, hn]
    omega
  obtain ⟨hok, h₂, hpre₂, hy₂⟩ := h₁.emit t hroom
  exact ⟨hok, blocks₁, cur₁ ++ [t.frag (data.take n)], _, h₂, by rw [places_snoc, hp₁],
    hpre₁.trans hpre₂, by rw [hy₂, hy₁]⟩

/-- The loop cuts the data up: by induction on its rounds, each of which adds one fragment. -/
theorem Laid.addLoop (w : Writer) (begin : Bool) (data : Slice) :
    ∀ {blocks : List (List (Frag UInt8))} {cur : List (Frag UInt8)}, Laid w blocks cur →
    (w.addLoop begin data).1 = true ∧
    ∃ blocks' cur' fs, Laid (w.addLoop begin data).2 blocks' cur' ∧
      CutsFrom begin data (fs.map Prod.fst) ∧ places blocks' cur' = places blocks cur ++ fs ∧
      w.dest.contents <+: (w.addLoop begin data).2.dest.contents ∧
      (w.addLoop begin data).2.dest.synced = w.dest.synced := by
  fun_induction Writer.addLoop w begin data with
  | case1 w begin data n =>
    rename_i r hcont ih
    intro blocks cur h
    obtain ⟨-, blocks₁, cur₁, e, h₁, hp₁, hpre₁, hy₁⟩ := h.round
      (Writer.fragmentType begin (data.length = n)) data rfl
    obtain ⟨hok₂, blocks₂, cur₂, fs, h₂, hcut, hp₂, hpre₂, hy₂⟩ := ih h₁
    refine ⟨hok₂, blocks₂, cur₂,
      ((Writer.fragmentType begin (data.length = n)).frag (data.take n), e) :: fs, h₂, ?_, ?_,
      hpre₁.trans hpre₂, by rw [hy₂, hy₁]⟩
    · have hmore : data.length ≠ n := by
        have := hcont.2
        rw [List.length_drop] at this
        omega
      have hcons := CutsFrom.cons begin (data.take n) hcut
      rwa [List.take_append_drop, ← decide_eq_false hmore] at hcons
    · rw [hp₂, hp₁, List.append_assoc]
      rfl
  | case2 w begin data n =>
    rename_i r hstop
    intro blocks cur h
    obtain ⟨hok, blocks₁, cur₁, e, h₁, hp₁, hpre₁, hy₁⟩ := h.round
      (Writer.fragmentType begin (data.length = n)) data rfl
    have hlast : data.length = n := by
      have hle : n ≤ data.length := w.switchBlock.fragmentLength_le data.length
      have hnone : ¬ 0 < (data.drop n).length := fun hpos => hstop ⟨hok, hpos⟩
      rw [List.length_drop] at hnone
      omega
    refine ⟨hok, blocks₁, cur₁,
      [((Writer.fragmentType begin (data.length = n)).frag (data.take n), e)], h₁, ?_, hp₁, hpre₁, hy₁⟩
    rw [decide_eq_true hlast, List.take_of_length_le hlast.le]
    exact CutsFrom.one begin data

/-- **`AddRecord` adds the record, cut into fragments**, and keeps the layout. -/
theorem Laid.addRecord {w : Writer} {blocks : List (List (Frag UInt8))} {cur : List (Frag UInt8)}
    (h : Laid w blocks cur) (data : Slice) :
    (w.addRecord data).1 = true ∧
    ∃ blocks' cur' fs, Laid (w.addRecord data).2 blocks' cur' ∧
      Cuts data (fs.map Prod.fst) ∧ places blocks' cur' = places blocks cur ++ fs ∧
      w.dest.contents <+: (w.addRecord data).2.dest.contents ∧
      (w.addRecord data).2.dest.synced = w.dest.synced :=
  Laid.addLoop w true data h

end Mdb.Ldb
