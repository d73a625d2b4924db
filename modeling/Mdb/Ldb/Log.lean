import Mdb.Ldb.LogReader

/-!
# What a log keeps

A log that was written record by record and read again, whole, cut off or damaged.

* `parseBlock_encFrag`, `parseBlock_cut`, `fileStream_take`: the fragments a reader finds in a file
  that was cut off are those that end before the cut;
* `Written`: a log and the records that were added to it;
* **`log_recovers`**: whatever part of a log is left, all records that end in it are read and no
  others, and nothing is reported;
* `Damaged`, `DamagedBlock`: a fragment with another checksum, or whose type and data were changed
  within four consecutive bytes, and anything after it in the block;
* **`log_damage`**: from a log with such damage in any of its blocks some of the records are read, in
  order, and nothing else.
-/

namespace Mdb.Ldb

open Fragments Reader

/-! ## One fragment -/

theorem recordCrc_eq (t : UInt8) (data : Slice) : recordCrc t data = value 0 (t :: data) :=
  extend_append 0 0 0 0#32 [t] data

theorem length_bytes {n : ℕ} (h : n < 65536) :
    (UInt8.ofNat (n &&& 0xff)).toNat ||| (UInt8.ofNat (n >>> 8)).toNat <<< 8 = n := by
  have hlo : (UInt8.ofNat (n &&& 0xff)).toNat = n % 2 ^ 8 := by
    rw [UInt8.toNat_ofNat', show n &&& 0xff = n % 2 ^ 8 from Nat.and_two_pow_sub_one_eq_mod n 8,
      Nat.mod_mod]
  have hhi : (UInt8.ofNat (n >>> 8)).toNat = n / 2 ^ 8 := by
    rw [UInt8.toNat_ofNat', Nat.shiftRight_eq_div_pow]
    omega
  have hlt : n % 2 ^ 8 < 2 ^ 8 := Nat.mod_lt _ (by decide)
  rw [hlo, hhi, Nat.shiftLeft_eq, Nat.or_comm, Nat.mul_comm, ← Nat.two_pow_add_eq_or_of_lt hlt]
  omega

/-- A header: the checksum and the length, and then the type and the data. -/
def headed (crc : BitVec 32) (length : ℕ) (body : Slice) : Slice :=
  encodeFixed32 crc ++ [UInt8.ofNat (length &&& 0xff), UInt8.ofNat (length >>> 8)] ++ body

theorem physicalRecord_eq (t : RecordType) (data : Slice) : physicalRecord t data =
    headed (mask (value 0 (t.toByte :: data))) data.length (t.toByte :: data) := by
  rw [physicalRecord, recordCrc_eq, headed]
  simp only [List.append_assoc, List.cons_append, List.nil_append]

section Header

variable (crc : BitVec 32) {length : ℕ} (t : UInt8) (data rest : Slice)

theorem recordLength_headed (h : length < 65536) (body : Slice) :
    recordLength (headed crc length body ++ rest) = length := length_bytes h

theorem recordType_headed :
    recordType (headed crc length (t :: data) ++ rest) = charToUnsigned t := rfl

theorem decode_headed (body : Slice) : decodeFixed32 (headed crc length body ++ rest) = crc := by
  rw [headed, List.append_assoc, List.append_assoc, decodeFixed32_append]

theorem drop_headed (body : Slice) : (headed crc length body ++ rest).drop 6 = body ++ rest := by
  rw [headed, encodeFixed32]
  rfl

theorem length_headed (body : Slice) : (headed crc length body).length = 6 + body.length := by
  rw [headed, encodeFixed32]
  simp only [List.length_append, List.length_cons, List.length_nil]

/-- The length in a header decides how much of the block is looked at. -/
theorem parseBlock_headed {eof : Bool} (h : data.length < 65536) :
    parseBlock true eof (headed crc data.length (t :: data) ++ rest) =
      if charToUnsigned t = 0 ∧ data.length = 0 then [.bad]
      else if crcOk (headed crc data.length (t :: data) ++ rest) = false then [.bad]
      else toEvent (charToUnsigned t) data :: parseBlock true eof rest := by
  have hlen : (headed crc data.length (t :: data) ++ rest).length =
      kHeaderSize + data.length + rest.length := by
    rw [List.length_append, length_headed, List.length_cons, kHeaderSize]
    omega
  have hdata : ((headed crc data.length (t :: data) ++ rest).drop kHeaderSize).take data.length =
      data := by
    rw [show kHeaderSize = 6 + 1 from rfl, ← List.drop_drop, drop_headed]
    exact List.take_left
  have hrest : (headed crc data.length (t :: data) ++ rest).drop (kHeaderSize + data.length) = rest := by
    rw [show kHeaderSize = 6 + 1 from rfl, Nat.add_assoc, ← List.drop_drop, drop_headed, Nat.add_comm 1]
    exact List.drop_left
  rw [parseBlock, recordLength_headed crc rest h, recordType_headed, if_neg (by omega),
    if_neg (by omega), hdata, hrest]
  simp only [true_and]

theorem crcOk_headed (h : data.length < 65536) :
    crcOk (headed crc data.length (t :: data) ++ rest) = decide (unmask crc = value 0 (t :: data)) := by
  have htake : (t :: data ++ rest).take (1 + data.length) = t :: data := by
    rw [Nat.add_comm]
    exact List.take_left' rfl
  rw [crcOk, decode_headed, recordLength_headed crc rest h, drop_headed, htake]

/-- A record with another checksum is not read, nor is what follows it in the block. -/
theorem parseBlock_headed_bad {eof : Bool} (h : data.length < 65536)
    (hcrc : unmask crc ≠ value 0 (t :: data)) :
    parseBlock true eof (headed crc data.length (t :: data) ++ rest) = [.bad] := by
  rw [parseBlock_headed crc t data rest h, crcOk_headed crc t data rest h, decide_eq_false hcrc,
    if_pos (rfl : false = false), ite_self]

end Header

theorem charToUnsigned_toByte (t : RecordType) (data : Slice) :
    charToUnsigned t.toByte ≠ 0 ∧ toEvent (charToUnsigned t.toByte) data = .frag (t.frag data) := by
  cases t <;> exact ⟨by decide, rfl⟩

/-- **A fragment is read back**, with anything after it. -/
theorem parseBlock_physicalRecord {eof : Bool} (t : RecordType) {data : Slice} (rest : Slice)
    (h : data.length < 65536) :
    parseBlock true eof (physicalRecord t data ++ rest) =
      .frag (t.frag data) :: parseBlock true eof rest := by
  obtain ⟨hne, hevent⟩ := charToUnsigned_toByte t data
  rw [physicalRecord_eq, parseBlock_headed _ _ _ _ h, crcOk_headed _ _ _ _ h, unmask_mask,
    if_neg (fun hz => hne hz.1), decide_eq_true rfl, if_neg Bool.false_ne_true.symm, hevent]

/-- A fragment is a type and its data. -/
theorem exists_frag (f : Frag UInt8) : ∃ t : RecordType, ∃ data, f = t.frag data ∧
    encFrag f = physicalRecord t data := by
  cases f with
  | full p => exact ⟨.full, p, rfl, rfl⟩
  | first p => exact ⟨.first, p, rfl, rfl⟩
  | middle p => exact ⟨.middle, p, rfl, rfl⟩
  | last p => exact ⟨.last, p, rfl, rfl⟩

theorem kHeaderSize_le_encFrag (f : Frag UInt8) : kHeaderSize ≤ (encFrag f).length := by
  obtain ⟨t, data, -, henc⟩ := exists_frag f
  rw [henc, length_physicalRecord]
  omega

theorem parseBlock_encFrag {eof : Bool} (f : Frag UInt8) (rest : Slice)
    (h : (encFrag f).length ≤ kBlockSize) :
    parseBlock true eof (encFrag f ++ rest) = .frag f :: parseBlock true eof rest := by
  obtain ⟨t, data, rfl, henc⟩ := exists_frag f
  rw [henc] at h ⊢
  rw [length_physicalRecord] at h
  refine parseBlock_physicalRecord t rest ?_
  unfold kHeaderSize kBlockSize at h
  omega

theorem recordLength_take {l : Slice} {n : ℕ} (h : kHeaderSize ≤ n) :
    recordLength (l.take n) = recordLength l := by
  have hget : ∀ i < kHeaderSize, (l.take n).getD i 0 = l.getD i 0 := fun i hi => by
    rw [List.getD_eq_getElem?_getD, List.getD_eq_getElem?_getD, List.getElem?_take_of_lt (by omega)]
  rw [recordLength, recordLength, hget 4 (by decide), hget 5 (by decide)]

/-- Nothing is read of a fragment that the file ends in. -/
theorem parseBlock_encFrag_take (f : Frag UInt8) {n : ℕ} (h : (encFrag f).length ≤ kBlockSize)
    (hn : n < (encFrag f).length) : parseBlock true true ((encFrag f).take n) = [] := by
  have hlen : ((encFrag f).take n).length = n := by
    rw [List.length_take]
    omega
  rw [parseBlock, hlen]
  by_cases hhead : n < kHeaderSize
  · rw [if_pos hhead]
  · obtain ⟨t, data, -, henc⟩ := exists_frag f
    rw [henc, length_physicalRecord] at h hn
    have hrec : recordLength (physicalRecord t data) = data.length := by
      rw [physicalRecord_eq, ← List.append_nil (headed _ _ _)]
      refine recordLength_headed _ _ ?_ _
      unfold kHeaderSize kBlockSize at h
      omega
    rw [if_neg hhead, recordLength_take (not_lt.mp hhead), henc, hrec, if_pos hn, if_pos rfl]

/-! ## The fragments before a cut -/

/-- The fragments that end within the first `n` bytes. -/
def endingBy (n : ℕ) (fs : List (Frag UInt8 × ℕ)) : List (Frag UInt8) :=
  (fs.filter fun p => p.2 ≤ n).map Prod.fst

theorem endingBy_append (n : ℕ) (a b : List (Frag UInt8 × ℕ)) :
    endingBy n (a ++ b) = endingBy n a ++ endingBy n b := by
  rw [endingBy, List.filter_append, List.map_append]
  rfl

theorem endingBy_cons {n e : ℕ} (h : e ≤ n) (f : Frag UInt8) (fs : List (Frag UInt8 × ℕ)) :
    endingBy n ((f, e) :: fs) = f :: endingBy n fs := by
  rw [endingBy, List.filter_cons_of_pos (by simpa using h), List.map_cons]
  rfl

theorem endingBy_of_le {n : ℕ} {fs : List (Frag UInt8 × ℕ)} (h : ∀ p ∈ fs, p.2 ≤ n) :
    endingBy n fs = fs.map Prod.fst := by
  rw [endingBy, List.filter_eq_self.mpr fun p hp => decide_eq_true (h p hp)]

theorem endingBy_of_lt {n : ℕ} {fs : List (Frag UInt8 × ℕ)} (h : ∀ p ∈ fs, n < p.2) :
    endingBy n fs = [] := by
  rw [endingBy, List.filter_eq_nil_iff.mpr fun p hp => by simpa using h p hp, List.map_nil]

theorem map_placeFrags (fs : List (Frag UInt8)) : ∀ off, (placeFrags off fs).map Prod.fst = fs := by
  induction fs with
  | nil => exact fun _ => rfl
  | cons f fs ih => exact fun off => congrArg (f :: ·) (ih _)

theorem lt_of_mem_placeFrags {fs : List (Frag UInt8)} : ∀ {off : ℕ} {p : Frag UInt8 × ℕ},
    p ∈ placeFrags off fs → off < p.2 ∧ p.2 ≤ off + (encFrags fs).length := by
  induction fs with
  | nil => exact fun h => absurd h List.not_mem_nil
  | cons f fs ih =>
    intro off p hp
    have hpos := kHeaderSize_le_encFrag f
    have hlen : (encFrags (f :: fs)).length = (encFrag f).length + (encFrags fs).length :=
      List.length_append
    unfold kHeaderSize at hpos
    rcases List.mem_cons.mp hp with rfl | hp
    · dsimp only
      omega
    · have := ih hp
      omega

theorem lt_of_mem_placeBlocks {blocks : List (List (Frag UInt8))} : ∀ {off : ℕ} {p : Frag UInt8 × ℕ},
    p ∈ placeBlocks off blocks → off < p.2 := by
  induction blocks with
  | nil => exact fun h => absurd h List.not_mem_nil
  | cons fs blocks ih =>
    intro off p hp
    rcases List.mem_append.mp hp with hp | hp
    · exact (lt_of_mem_placeFrags hp).1
    · exact lt_of_le_of_lt (Nat.le_add_right _ _) (ih hp)

/-- In a block that was cut off the fragments before the cut are found. -/
theorem parseBlock_cut (fs : List (Frag UInt8)) {z : Slice} (hz : z.length < kHeaderSize) :
    ∀ n off : ℕ, (encFrags fs).length ≤ kBlockSize →
      parseBlock true true ((encFrags fs ++ z).take n) =
        (endingBy (off + n) (placeFrags off fs)).map .frag := by
  induction fs with
  | nil =>
    intro n off _
    rw [show encFrags [] ++ z = z from rfl, parseBlock, if_pos (by rw [List.length_take]; omega)]
    rfl
  | cons f fs ih =>
    intro n off hle
    have hcons : encFrags (f :: fs) = encFrag f ++ encFrags fs := rfl
    rw [hcons, List.length_append] at hle
    rw [hcons, List.append_assoc]
    by_cases hn : n < (encFrag f).length
    · rw [List.take_append_of_le_length hn.le, parseBlock_encFrag_take f (by omega) hn,
        endingBy_of_lt, List.map_nil]
      intro p hp
      rcases List.mem_cons.mp hp with rfl | hp
      · dsimp only
        omega
      · have := (lt_of_mem_placeFrags hp).1
        omega
    · rw [List.take_append, List.take_of_length_le (not_lt.mp hn), parseBlock_encFrag f _ (by omega),
        ih (n - (encFrag f).length) (off + (encFrag f).length) (by omega), placeFrags,
        endingBy_cons (by omega), List.map_cons,
        show off + (encFrag f).length + (n - (encFrag f).length) = off + n by omega]

theorem parseBlock_encFrags {eof : Bool} (fs : List (Frag UInt8)) (rest : Slice)
    (hle : (encFrags fs).length ≤ kBlockSize) :
    parseBlock true eof (encFrags fs ++ rest) = fs.map .frag ++ parseBlock true eof rest := by
  induction fs with
  | nil => rfl
  | cons f fs ih =>
    have hcons : encFrags (f :: fs) = encFrag f ++ encFrags fs := rfl
    rw [hcons, List.length_append] at hle
    rw [hcons, List.append_assoc, parseBlock_encFrag f _ (by omega), ih (by omega), List.map_cons,
      List.cons_append]

/-- In a whole block all fragments are found. -/
theorem parseBlock_whole {eof : Bool} (fs : List (Frag UInt8)) {z : Slice} (hz : z.length < kHeaderSize)
    (hle : (encFrags fs).length ≤ kBlockSize) :
    parseBlock true eof (encFrags fs ++ z) = fs.map .frag := by
  rw [parseBlock_encFrags fs z hle, parseBlock, if_pos hz, List.append_nil]

theorem fileStream_nil (checksum : Bool) : fileStream checksum [] = [] := by
  rw [fileStream, if_pos (by decide), parseBlock, if_pos (by decide)]

/-- The block that is written to, cut off or not. -/
theorem fileStream_last {cur : List (Frag UInt8)} (hcur : (encFrags cur).length ≤ kBlockSize)
    (n off : ℕ) : fileStream true ((encFrags cur).take n) =
      (endingBy (off + n) (placeFrags off cur)).map .frag := by
  have hnil : encFrags cur = encFrags cur ++ [] := (List.append_nil _).symm
  rw [fileStream, List.length_take]
  by_cases hshort : min n (encFrags cur).length < kBlockSize
  · rw [if_pos hshort, hnil, parseBlock_cut cur (by decide) n off hcur]
  · -- the block is full to the last byte
    have hfull : (encFrags cur).take n = encFrags cur := List.take_of_length_le (by omega)
    rw [if_neg hshort, hfull, List.take_of_length_le hcur, List.drop_eq_nil_of_le hcur, fileStream_nil,
      List.append_nil, hnil, parseBlock_whole cur (by decide) hcur, endingBy_of_le, map_placeFrags]
    intro p hp
    have := (lt_of_mem_placeFrags hp).2
    omega

/-- **Of a log that was cut off the fragments before the cut are found.** -/
theorem fileStream_take {cur : List (Frag UInt8)} (hcur : (encFrags cur).length ≤ kBlockSize) :
    ∀ {blocks : List (List (Frag UInt8))}, (∀ fs ∈ blocks, (encFrags fs).length ≤ kBlockSize ∧
      kBlockSize < (encFrags fs).length + kHeaderSize) → ∀ n off : ℕ,
    fileStream true ((blocks.flatMap encBlock ++ encFrags cur).take n) =
      (endingBy (off + n) (placeBlocks off (blocks ++ [cur]))).map .frag := by
  intro blocks
  induction blocks with
  | nil =>
    intro _ n off
    rw [List.nil_append, placeBlocks, placeBlocks, List.append_nil]
    exact fileStream_last hcur n off
  | cons fs blocks ih =>
    intro hblocks n off
    obtain ⟨hle, hfull⟩ := hblocks fs List.mem_cons_self
    have hlen : (encBlock fs).length = kBlockSize := Laid.length_encBlock hle
    have hz : (List.replicate (kBlockSize - (encFrags fs).length) (0 : UInt8)).length < kHeaderSize := by
      rw [List.length_replicate]
      omega
    rw [List.flatMap_cons, List.append_assoc, List.cons_append, placeBlocks, endingBy_append]
    by_cases hn : n < kBlockSize
    · -- the cut is in this block
      have hnone : endingBy (off + n) (placeBlocks (off + kBlockSize) (blocks ++ [cur])) = [] :=
        endingBy_of_lt fun p hp => by
          have := lt_of_mem_placeBlocks hp
          omega
      rw [List.take_append_of_le_length (by omega), fileStream, List.length_take, if_pos (by omega),
        encBlock, parseBlock_cut fs hz n off hle, hnone, List.append_nil]
    · have htake : (encBlock fs ++ (blocks.flatMap encBlock ++ encFrags cur)).take n =
          encBlock fs ++ (blocks.flatMap encBlock ++ encFrags cur).take (n - kBlockSize) := by
        rw [List.take_append, List.take_of_length_le (by omega), hlen]
      have hall : endingBy (off + n) (placeFrags off fs) = fs := by
        rw [endingBy_of_le, map_placeFrags]
        intro p hp
        have := (lt_of_mem_placeFrags hp).2
        omega
      rw [htake, fileStream, List.length_append, if_neg (by omega), List.take_left' hlen,
        List.drop_left' hlen, encBlock, parseBlock_whole fs hz hle, hall,
        ih (fun g hg => hblocks g (List.mem_cons_of_mem _ hg)) (n - kBlockSize) (off + kBlockSize),
        List.map_append, show off + kBlockSize + (n - kBlockSize) = off + n by omega]

/-! ## Logs that were written -/

/-- `log::Writer(dest)`, for an empty file. -/
def Writer.new (dest : WritableFile) : Writer := ⟨dest, 0⟩

/-- The writer after some records were added. -/
def Writer.addAll (w : Writer) (records : List Slice) : Writer :=
  records.foldl (fun w data => (w.addRecord data).2) w

/-- A log laid out in blocks, and the records that were added to it. -/
structure Written (w : Writer) (records : List Slice) (blocks : List (List (Frag UInt8)))
    (cur : List (Frag UInt8)) : Prop where
  laid : Laid w blocks cur
  cut : ∃ fss, List.Forall₂ (fun r fs => Cuts r (fs.map Prod.fst)) records fss ∧
    places blocks cur = fss.flatten

theorem Written.new {dest : WritableFile} (hs : dest.Sound) (h : dest.contents = []) :
    Written (Writer.new dest) [] [] [] :=
  ⟨⟨hs, h, rfl, Nat.zero_le _, fun _ hfs => absurd hfs List.not_mem_nil⟩, [], .nil, rfl⟩

/-- What later records add to a log. -/
theorem Written.addAll {b : List Slice} : ∀ {w : Writer} {a : List Slice}
    {blocks : List (List (Frag UInt8))} {cur : List (Frag UInt8)}, Written w a blocks cur →
    ∃ blocks' cur' fss, Written (w.addAll b) (a ++ b) blocks' cur' ∧
      List.Forall₂ (fun r fs => Cuts r (fs.map Prod.fst)) b fss ∧
      places blocks' cur' = places blocks cur ++ fss.flatten := by
  induction b with
  | nil =>
    intro w a blocks cur h
    exact ⟨blocks, cur, [], by rwa [List.append_nil], .nil, (List.append_nil _).symm⟩
  | cons data b ih =>
    intro w a blocks cur h
    obtain ⟨-, blocks₁, cur₁, fs, h₁, hcut, hp₁, -⟩ := h.laid.addRecord data
    obtain ⟨fss, hfss, hp⟩ := h.cut
    have hw₁ : Written (w.addRecord data).2 (a ++ [data]) blocks₁ cur₁ := by
      refine ⟨h₁, fss ++ [fs], List.rel_append hfss (.cons hcut .nil), ?_⟩
      rw [hp₁, hp, List.flatten_append, List.flatten_singleton]
    obtain ⟨blocks₂, cur₂, gss, hw₂, hgss, hp₂⟩ := ih hw₁
    refine ⟨blocks₂, cur₂, fs :: gss, ?_, .cons hcut hgss, ?_⟩
    · rw [List.append_assoc] at hw₂
      exact hw₂
    · rw [hp₂, hp₁, List.flatten_cons, List.append_assoc]

/-! ## A log that was cut off -/

theorem placeFrags_sorted (fs : List (Frag UInt8)) : ∀ off,
    (placeFrags off fs).Pairwise fun p q => p.2 ≤ q.2 := by
  induction fs with
  | nil => exact fun _ => .nil
  | cons f fs ih => exact fun off => .cons (fun q hq => (lt_of_mem_placeFrags hq).1.le) (ih _)

theorem placeBlocks_sorted {blocks : List (List (Frag UInt8))} :
    (∀ fs ∈ blocks, (encFrags fs).length ≤ kBlockSize) → ∀ off,
    (placeBlocks off blocks).Pairwise fun p q => p.2 ≤ q.2 := by
  induction blocks with
  | nil => exact fun _ _ => .nil
  | cons fs blocks ih =>
    intro h off
    refine List.pairwise_append.mpr ⟨placeFrags_sorted fs off,
      ih (fun g hg => h g (List.mem_cons_of_mem _ hg)) _, fun p hp q hq => ?_⟩
    have hfs := h fs List.mem_cons_self
    have hp' := (lt_of_mem_placeFrags hp).2
    have hq' := lt_of_mem_placeBlocks hq
    omega

theorem endingBy_isInitial {n : ℕ} {fs : List (Frag UInt8 × ℕ)}
    (h : fs.Pairwise fun p q => p.2 ≤ q.2) : endingBy n fs <+: fs.map Prod.fst := by
  induction h with
  | nil => exact List.prefix_refl _
  | @cons p fs hp _ ih =>
    by_cases hn : p.2 ≤ n
    · rw [endingBy_cons hn, List.map_cons]
      exact List.cons_prefix_cons.mpr ⟨rfl, ih⟩
    · rw [endingBy_of_lt]
      · exact List.nil_prefix
      · intro q hq
        rcases List.mem_cons.mp hq with rfl | hq
        · omega
        · exact lt_of_lt_of_le (by omega) (hp q hq)

theorem le_of_mem_placeBlocks {blocks : List (List (Frag UInt8))} :
    (∀ fs ∈ blocks, (encFrags fs).length ≤ kBlockSize) → ∀ {off : ℕ} {p : Frag UInt8 × ℕ},
    p ∈ placeBlocks off blocks → p.2 ≤ off + kBlockSize * blocks.length := by
  induction blocks with
  | nil => exact fun _ _ _ h => absurd h List.not_mem_nil
  | cons fs blocks ih =>
    intro h off p hp
    have hfs := h fs List.mem_cons_self
    rw [List.length_cons, Nat.mul_add_one]
    rcases List.mem_append.mp hp with hp | hp
    · have := (lt_of_mem_placeFrags hp).2
      omega
    · have := ih (fun g hg => h g (List.mem_cons_of_mem _ hg)) hp
      omega

theorem Laid.le_of_mem_places {w : Writer} {blocks : List (List (Frag UInt8))}
    {cur : List (Frag UInt8)} (h : Laid w blocks cur) {p : Frag UInt8 × ℕ} (hp : p ∈ places blocks cur) :
    p.2 ≤ w.dest.contents.length := by
  rw [places, placeBlocks_append] at hp
  rw [h.length_contents, h.offset]
  rcases List.mem_append.mp hp with hp | hp
  · have := le_of_mem_placeBlocks (fun fs hfs => (h.full fs hfs).1) hp
    omega
  · rw [placeBlocks, placeBlocks, List.append_nil] at hp
    have := (lt_of_mem_placeFrags hp).2
    omega

theorem Laid.places_sorted {w : Writer} {blocks : List (List (Frag UInt8))}
    {cur : List (Frag UInt8)} (h : Laid w blocks cur) :
    (places blocks cur).Pairwise fun p q => p.2 ≤ q.2 := by
  refine placeBlocks_sorted (fun fs hfs => ?_) 0
  rcases List.mem_append.mp hfs with hfs | hfs
  · exact (h.full fs hfs).1
  · rw [List.mem_singleton.mp hfs, ← h.offset]
    exact h.le

theorem cuts_map {records : List Slice} {fss : List (List (Frag UInt8 × ℕ))}
    (h : List.Forall₂ (fun r fs => Cuts r (fs.map Prod.fst)) records fss) :
    List.Forall₂ Cuts records (fss.map (List.map Prod.fst)) :=
  List.forall₂_map_right_iff.mpr h

/-- What is read of a log that was cut off after the records `a`, if `b` were added to it later. -/
theorem Written.recovers {w : Writer} {a : List Slice} {blocks : List (List (Frag UInt8))}
    {cur : List (Frag UInt8)} (h : Written w a blocks cur) (b : List Slice) {n : ℕ}
    (hn : w.dest.contents.length ≤ n) :
    ∃ k ≤ b.length, ∃ r, (Reader.new ⟨(w.addAll b).dest.contents.take n, fun _ => none⟩
      true true 0).readAll = (a ++ b.take k, r) ∧ r.reports = [] := by
  obtain ⟨fssa, ha, hpa⟩ := h.cut
  obtain ⟨blocks₂, cur₂, fssb, h₂, hb, hpb⟩ := h.addAll (b := b)
  -- all of the fragments of `a` end before the cut, and some first ones of those of `b`
  have hstream : fileStream true ((w.addAll b).dest.contents.take n) =
      (fssa.map (List.map Prod.fst)).flatten.map .frag ++ (endingBy n fssb.flatten).map .frag := by
    rw [h₂.laid.contents, fileStream_take (h₂.laid.offset ▸ h₂.laid.le) h₂.laid.full n 0, Nat.zero_add,
      show placeBlocks 0 (blocks₂ ++ [cur₂]) = places blocks₂ cur₂ from rfl, hpb, endingBy_append,
      endingBy_of_le fun p hp => (h.laid.le_of_mem_places hp).trans hn, hpa, List.map_flatten,
      List.map_append]
  have hprefix : endingBy n fssb.flatten <+: (fssb.map (List.map Prod.fst)).flatten := by
    have hsorted := h₂.laid.places_sorted
    rw [hpb] at hsorted
    rw [← List.map_flatten]
    exact endingBy_isInitial (List.pairwise_append.mp hsorted).2.1
  obtain ⟨k, hk, hall, hquiet⟩ := assemble_cutOff (cuts_map hb) hprefix
  obtain ⟨hread, hreports⟩ :=
    readAll_spec (fromStart_new ((w.addAll b).dest.contents.take n) true true)
  rw [stream_new, hstream] at hread hreports
  refine ⟨k, hk, _, Prod.ext ?_ rfl, hreports ?_⟩
  · rw [hread, assemble_cuts (cuts_map ha), hall]
  · rw [quiet_cuts (cuts_map ha), hquiet]

/-- **Whatever part of a log is left, the records that end in it are read, and no others**: if a log
of the records `a` and then `b` is cut off anywhere after `a`, then `a` and some first records of `b`
are read, and nothing is reported. -/
theorem log_recovers {dest : WritableFile} (hs : dest.Sound) (hnew : dest.contents = [])
    (a b : List Slice) {n : ℕ} (hn : ((Writer.new dest).addAll a).dest.contents.length ≤ n) :
    ∃ k ≤ b.length, ∃ r, (Reader.new
        ⟨((Writer.new dest).addAll (a ++ b)).dest.contents.take n, fun _ => none⟩ true true 0).readAll =
      (a ++ b.take k, r) ∧ r.reports = [] := by
  obtain ⟨blocks, cur, -, h, -⟩ := (Written.new hs hnew).addAll (b := a)
  have hw : (Writer.new dest).addAll (a ++ b) = ((Writer.new dest).addAll a).addAll b :=
    List.foldl_append
  rw [hw]
  exact h.recovers b hn

theorem log_recovers_third :
    ∃ k ≤ 1, ∃ r, (Reader.new ⟨((Writer.new ⟨[], 0, fun _ => none⟩).addAll
        ([[1], [2, 2]] ++ [[3]])).dest.contents.take
          (((Writer.new ⟨[], 0, fun _ => none⟩).addAll [[1], [2, 2]]).dest.contents.length + 5),
        fun _ => none⟩ true true 0).readAll = ([[1], [2, 2]] ++ [[3]].take k, r) ∧ r.reports = [] :=
  log_recovers (fun _ => rfl) rfl [[1], [2, 2]] [[3]] (Nat.le_add_right _ 5)

/-! ## A log that was damaged -/

theorem unmask_injective : Function.Injective unmask :=
  Finite.injective_iff_surjective.mpr fun crc => ⟨mask crc, unmask_mask crc⟩

/-- A fragment that was changed: it has another checksum, or its type and data differ within four
consecutive bytes. -/
inductive Damaged (t : UInt8) (data : Slice) : Slice → Prop
  | checksum {crc : BitVec 32} (h : crc ≠ mask (value 0 (t :: data))) :
      Damaged t data (headed crc data.length (t :: data))
  | burst {pre x y post : Slice} (h : t :: data = pre ++ x ++ post) (hlen : x.length = y.length)
      (hx : x.length ≤ 4) (hne : x ≠ y) :
      Damaged t data (headed (mask (value 0 (t :: data))) data.length (pre ++ y ++ post))

/-- A damaged fragment is not read, nor is what follows it in the block. -/
theorem Damaged.parseBlock_bad {t : UInt8} {data d : Slice} (hd : Damaged t data d)
    (hlen : data.length < 65536) {eof : Bool} (rest : Slice) :
    parseBlock true eof (d ++ rest) = [.bad] := by
  cases hd with
  | @checksum crc h =>
    refine parseBlock_headed_bad crc t data rest hlen fun he => h (unmask_injective ?_)
    rw [he, unmask_mask]
  | @burst pre x y post h hlen' hx hne =>
    have hall : (pre ++ y ++ post).length = data.length + 1 := by
      rw [← List.length_cons (a := t), h]
      simp only [List.length_append, hlen']
    obtain ⟨t', data', hbody⟩ := List.exists_cons_of_length_eq_add_one hall
    rw [hbody, List.length_cons] at hall
    obtain hdata : data'.length = data.length := Nat.succ.inj hall
    rw [hbody, ← hdata]
    refine parseBlock_headed_bad _ t' data' rest (by omega) ?_
    rw [unmask_mask, ← hbody, h]
    exact value_ne hlen' hx hne

/-- A block as it was written, or one with a damaged fragment and anything after it. -/
inductive DamagedBlock (fs : List (Frag UInt8)) (whole : Slice) : Bool → Slice → Prop
  | intact (hurt : Bool) : DamagedBlock fs whole hurt whole
  | damaged {pre post : List (Frag UInt8)} {t : RecordType} {data d rest : Slice}
      (h : fs = pre ++ t.frag data :: post) (hd : Damaged t.toByte data d)
      (hlen : (encFrags pre ++ (d ++ rest)).length = whole.length) :
      DamagedBlock fs whole true (encFrags pre ++ (d ++ rest))

/-- The contents of a log some of whose blocks are damaged, from the `i`-th block on. -/
inductive DamagedLog (hurt : ℕ → Bool) (cur : List (Frag UInt8)) :
    ℕ → List (List (Frag UInt8)) → Slice → Prop
  | last {i : ℕ} {buf : Slice} (h : DamagedBlock cur (encFrags cur) (hurt i) buf) :
      DamagedLog hurt cur i [] buf
  | block {i : ℕ} {fs : List (Frag UInt8)} {blocks : List (List (Frag UInt8))} {buf rest : Slice}
      (h : DamagedBlock fs (encBlock fs) (hurt i) buf) (hrest : DamagedLog hurt cur (i + 1) blocks rest) :
      DamagedLog hurt cur i (fs :: blocks) (buf ++ rest)

/-- A fragment, marked if the block it ends in is not damaged. -/
def mark (hurt : ℕ → Bool) (p : Frag UInt8 × ℕ) : Frag UInt8 × Bool :=
  (p.1, !hurt ((p.2 - 1) / kBlockSize))

theorem map_mark_placeFrags {fs : List (Frag UInt8)} (hle : (encFrags fs).length ≤ kBlockSize)
    (hurt : ℕ → Bool) (i : ℕ) :
    (placeFrags (i * kBlockSize) fs).map (mark hurt) = fs.map (·, !hurt i) := by
  have hmark : ∀ p ∈ placeFrags (i * kBlockSize) fs, mark hurt p = (p.1, !hurt i) := by
    intro p hp
    have hin := lt_of_mem_placeFrags hp
    have hblock : (p.2 - 1) / kBlockSize = i := by
      rw [Nat.div_eq_iff (by decide)]
      unfold kBlockSize at *
      omega
    rw [mark, hblock]
  have hfst : (fun p : Frag UInt8 × ℕ => (p.1, !hurt i)) = (·, !hurt i) ∘ Prod.fst := rfl
  rw [List.map_congr_left hmark, hfst, ← List.map_map, map_placeFrags]

theorem DamagedBlock.length {fs : List (Frag UInt8)} {whole buf : Slice} {hurt : Bool}
    (hd : DamagedBlock fs whole hurt buf) : buf.length = whole.length := by
  cases hd with
  | intact => rfl
  | damaged _ _ hlen => exact hlen

/-- What a reader finds in a block. -/
theorem DamagedBlock.loses {fs : List (Frag UInt8)} {z buf : Slice} {hurt eof : Bool}
    (hd : DamagedBlock fs (encFrags fs ++ z) hurt buf) (hz : z.length < kHeaderSize)
    (hle : (encFrags fs).length ≤ kBlockSize) :
    Loses (fs.map (·, !hurt)) (parseBlock true eof buf) := by
  cases hd with
  | intact =>
    rw [parseBlock_whole fs hz hle]
    exact Loses.refl fs _
  | @damaged pre post t data d rest h hd hlen =>
    have hdata : (encFrags pre).length + (kHeaderSize + data.length) ≤ (encFrags fs).length := by
      have henc : encFrag (t.frag data) = physicalRecord t data := by cases t <;> rfl
      rw [h, encFrags_append, List.length_append, encFrags, encFrags, List.flatMap_cons, henc,
        List.length_append, length_physicalRecord]
      omega
    have hbound : data.length < 65536 := by
      unfold kBlockSize at hle
      omega
    rw [parseBlock_encFrags pre _ (by omega), hd.parseBlock_bad hbound, h, List.map_append]
    refine (Loses.refl pre _).append ?_
    rw [← List.append_nil (List.map _ (_ :: _))]
    exact .lose (List.cons_ne_nil _ _) (by simp) .nil

/-- **What a reader finds in a damaged log**: all fragments of the blocks that are not damaged. -/
theorem DamagedLog.loses {hurt : ℕ → Bool} {cur : List (Frag UInt8)} {i : ℕ}
    {blocks : List (List (Frag UInt8))} {contents : Slice}
    (hd : DamagedLog hurt cur i blocks contents) (hcur : (encFrags cur).length ≤ kBlockSize)
    (hblocks : ∀ fs ∈ blocks, (encFrags fs).length ≤ kBlockSize ∧
      kBlockSize < (encFrags fs).length + kHeaderSize) :
    Loses ((placeBlocks (i * kBlockSize) (blocks ++ [cur])).map (mark hurt))
      (fileStream true contents) := by
  induction hd with
  | @last i buf h =>
    rw [List.nil_append, placeBlocks, placeBlocks, List.append_nil, map_mark_placeFrags hcur]
    have hlen := h.length
    rw [← List.append_nil (encFrags cur)] at h
    rw [fileStream]
    by_cases hshort : buf.length < kBlockSize
    · rw [if_pos hshort]
      exact h.loses (by decide) hcur
    · rw [if_neg hshort, List.take_of_length_le (by omega), List.drop_eq_nil_of_le (by omega),
        fileStream_nil, List.append_nil]
      exact h.loses (by decide) hcur
  | @block i fs blocks buf rest h _ ih =>
    obtain ⟨hle, hfull⟩ := hblocks fs List.mem_cons_self
    have hlen : buf.length = kBlockSize := h.length.trans (Laid.length_encBlock hle)
    have hnext : i * kBlockSize + kBlockSize = (i + 1) * kBlockSize := (Nat.succ_mul _ _).symm
    rw [List.cons_append, placeBlocks, List.map_append, map_mark_placeFrags hle, hnext, fileStream,
      List.length_append, if_neg (by omega), List.take_left' hlen, List.drop_left' hlen]
    refine (h.loses ?_ hle).append (ih fun g hg => hblocks g (List.mem_cons_of_mem _ hg))
    rw [List.length_replicate]
    omega

/-- **From a damaged log some of the records are read, in order, and nothing else**; and all records
are read that have no fragment in a damaged block. -/
theorem log_damage {w : Writer} {records : List Slice} {blocks : List (List (Frag UInt8))}
    {cur : List (Frag UInt8)} (h : Written w records blocks cur) {hurt : ℕ → Bool} {contents : Slice}
    (hd : DamagedLog hurt cur 0 blocks contents) :
    ∃ fss, List.Forall₂ (fun r fs => Cuts r (fs.map Prod.fst)) records fss ∧
      places blocks cur = fss.flatten ∧
      (kept records (fss.map (List.map (mark hurt)))).Sublist
        (Reader.new ⟨contents, fun _ => none⟩ true true 0).readAll.1 ∧
      (Reader.new ⟨contents, fun _ => none⟩ true true 0).readAll.1.Sublist records := by
  obtain ⟨fss, hcut, hplaces⟩ := h.cut
  have hmarked : CutAll records (fss.map (List.map (mark hurt))) := by
    refine List.forall₂_map_right_iff.mpr (hcut.imp fun r fs hc => ?_)
    rw [List.map_map]
    exact hc
  have hloses := hd.loses (h.laid.offset ▸ h.laid.le) h.laid.full
  rw [Nat.zero_mul, show placeBlocks 0 (blocks ++ [cur]) = places blocks cur from rfl, hplaces,
    List.map_flatten] at hloses
  rw [(readAll_spec (fromStart_new contents true true)).1, stream_new]
  exact ⟨fss, hcut, hplaces, assemble_loses hmarked hloses⟩

/-- Two records, the second with one byte changed. -/
theorem log_damage_second : ∃ fss : List (List (Frag UInt8 × ℕ)),
    List.Forall₂ (fun r fs => Cuts r (fs.map Prod.fst)) [[1, 2, 3], [4]] fss ∧
      places [] [.full [1, 2, 3], .full [4]] = fss.flatten ∧
      (kept [[1, 2, 3], [4]] (fss.map (List.map (mark fun _ => true)))).Sublist
        (Reader.new ⟨encFrags [.full [1, 2, 3]] ++ (headed (mask (value 0 [1, 4])) 1 [1, 5] ++ []),
          fun _ => none⟩ true true 0).readAll.1 ∧
      (Reader.new ⟨encFrags [.full [1, 2, 3]] ++ (headed (mask (value 0 [1, 4])) 1 [1, 5] ++ []),
        fun _ => none⟩ true true 0).readAll.1.Sublist [[1, 2, 3], [4]] := by
  obtain ⟨_, _, _, h, -⟩ :=
    (Written.new (fun _ => rfl) rfl : Written (Writer.new ⟨[], 0, fun _ => none⟩) [] [] []).addAll
      (b := [[1, 2, 3], [4]])
  have hw : Written ((Writer.new ⟨[], 0, fun _ => none⟩).addAll [[1, 2, 3], [4]]) [[1, 2, 3], [4]] []
      [.full [1, 2, 3], .full [4]] :=
    ⟨⟨h.laid.sound, by decide +kernel, by decide +kernel, by decide +kernel,
      fun _ hfs => absurd hfs List.not_mem_nil⟩,
      [[(.full [1, 2, 3], 10)], [(.full [4], 18)]], .cons (.full _) (.cons (.full _) .nil), by rfl⟩
  have hd : Damaged RecordType.full.toByte [4]
      (headed (mask (value 0 [1, 4])) 1 ([1] ++ [5] ++ [])) :=
    .burst (x := [4]) rfl rfl (by decide) (by decide)
  exact log_damage hw (.last (.damaged (t := .full) rfl hd (by decide +kernel)))

end Mdb.Ldb
