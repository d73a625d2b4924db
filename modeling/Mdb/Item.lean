import Mdb.Lib.Dll

/-!
# Items

The objects of the store. `struct Item` is kept as one array per field (`Heap`), indexed by the
item's address, so that `it->time = t` is one update of the array `time`. The hash chain field
`h_next` is not among them: a bucket's chain is the list it denotes (`Mdb.Assoc.Table`).

* `Ptr`: the address of a slab chunk, or of one of the crawler's own queue nodes;
* `Key`, `ItemFlags`, `LruStatus`, `NreadOpType`, `StoreItemType`: the data types of
  `item_manager.h`;
* `Heap`, `Heap.zero`;
* `itemMakeHeader`, `itemSuffix`, `strtol`: the text after the key, and how its flags are read back
  (`strtol_itemSuffix_append`).
-/

namespace Mdb

/-- What a pointer of type `Item*` can point at: a chunk of a slab page, or `&crawlers_[id]`. -/
inductive Ptr where
  | chunk (addr : ℕ)
  | crawler (id : ℕ)
  deriving DecidableEq

/-- Chunks are ordinary items, everything else in a queue is a crawler node. -/
def Ptr.isChunk : Ptr → Bool
  | .chunk _ => true
  | .crawler _ => false

/-- `KEY_MAX_LENGTH`. -/
def keyMaxLength : ℕ := 250

/-- A key: at most `KEY_MAX_LENGTH` bytes. Comparing lengths and then `memcmp` is equality here. -/
structure Key where
  bytes : List UInt8
  length_le : bytes.length ≤ keyMaxLength
  deriving DecidableEq

/-- The key of a zeroed chunk. -/
def Key.empty : Key := ⟨[], by decide⟩

/-- A key of one byte. -/
def Key.byte (b : UInt8) : Key := ⟨[b], by simp [keyMaxLength]⟩

/-- `it_flags`, one field per `ITEM_*` bit. -/
structure ItemFlags where
  linked : Bool
  cas : Bool
  slabbed : Bool
  fetched : Bool
  active : Bool
  deriving DecidableEq

/-- `it_flags = 0`. -/
def ItemFlags.none : ItemFlags := ⟨false, false, false, false, false⟩

/-- `it_flags = 1`; on a crawler node this means *enabled*. -/
def ItemFlags.one : ItemFlags := ⟨true, false, false, false, false⟩

/-- The four queues of a slab class. -/
inductive LruStatus where
  | hot
  | warm
  | cold
  | noexp
  deriving DecidableEq

/-- The number of an `LRUStatus` constant, the two top bits of a queue id. -/
def LruStatus.val : LruStatus → ℕ
  | .hot => 0
  | .warm => 64
  | .cold => 128
  | .noexp => 192

/-- `enum NreadOpType`. -/
inductive NreadOpType where
  | add
  | set
  | replace
  | append
  | prepend
  | cas
  deriving DecidableEq

/-- `enum StoreItemType`: `NOT_STORED`, `STORED`, `EXISTS`, `NOT_FOUND`. -/
inductive StoreItemType where
  | notStored
  | stored
  | existing
  | notFound
  deriving DecidableEq

/-- `POWER_SMALLEST`. -/
def powerSmallest : ℕ := 1

/-- `LARGEST_ID`, the number of LRU queues. -/
def largestId : ℕ := 256

/-- `MAX_NUMBER_OF_SLAB_CLASSES`. -/
def maxNumberOfSlabClasses : ℕ := 64

/-- `CHUNK_ALIGN_BYTES`. -/
def chunkAlignBytes : ℕ := 8

/-- `ITEM_UPDATE_INTERVAL`. -/
def itemUpdateInterval : UInt32 := 60

/-- `sizeof(Item)` on an LP64 platform. -/
def sizeofItem : ℕ := 48

/-- `CLEAR_LRU(id)` and `ITEM_clsid`: drop the two queue bits of an 8-bit id. -/
def clearLru (id : ℕ) : ℕ := id % 64

/-! ## The fields of all items -/

/-- **The items**, one array per field of `struct Item`. `refcount` counts without bound; what the
16-bit field holds is its residue modulo `2 ^ 16`. -/
structure Heap where
  next : Ptr → Option Ptr
  prev : Ptr → Option Ptr
  time : Ptr → UInt32
  exptime : Ptr → UInt32
  nbytes : Ptr → ℕ
  refcount : Ptr → ℕ
  itFlags : Ptr → ItemFlags
  slabsClsid : Ptr → ℕ
  key : Ptr → Key
  cas : Ptr → UInt64
  suffix : Ptr → List Char
  data : Ptr → ℕ → UInt8

/-- Zeroed memory. -/
def Heap.zero : Heap where
  next _ := none
  prev _ := none
  time _ := 0
  exptime _ := 0
  nbytes _ := 0
  refcount _ := 0
  itFlags _ := .none
  slabsClsid _ := 0
  key _ := .empty
  cas _ := 0
  suffix _ := []
  data _ _ := 0

/-- `memset(ptr, 0, len)` on a page holding the items `cs`. -/
def Heap.clear (h : Heap) (cs : List Ptr) : Heap where
  next p := if p ∈ cs then none else h.next p
  prev p := if p ∈ cs then none else h.prev p
  time p := if p ∈ cs then 0 else h.time p
  exptime p := if p ∈ cs then 0 else h.exptime p
  nbytes p := if p ∈ cs then 0 else h.nbytes p
  refcount p := if p ∈ cs then 0 else h.refcount p
  itFlags p := if p ∈ cs then .none else h.itFlags p
  slabsClsid p := if p ∈ cs then 0 else h.slabsClsid p
  key p := if p ∈ cs then .empty else h.key p
  cas p := if p ∈ cs then 0 else h.cas p
  suffix p := if p ∈ cs then [] else h.suffix p
  data p := if p ∈ cs then fun _ => 0 else h.data p

/-- `nkey`. -/
def Heap.nkey (h : Heap) (it : Ptr) : ℕ := (h.key it).bytes.length

/-- `ITEM_get_cas`. -/
def Heap.getCas (h : Heap) (it : Ptr) : UInt64 := if (h.itFlags it).cas then h.cas it else 0

/-- `ITEM_ntotal`. -/
def Heap.ntotal (h : Heap) (it : Ptr) : ℕ :=
  sizeofItem + h.nkey it + 1 + (h.suffix it).length + h.nbytes it +
    if (h.itFlags it).cas then 8 else 0

/-- The `nbytes` bytes at `ITEM_data`. -/
def Heap.bytes (h : Heap) (it : Ptr) : List UInt8 := (List.range (h.nbytes it)).map (h.data it)

/-- `memcpy(ITEM_data(dst) + off, src, n)`. -/
def memcpy (dst : ℕ → UInt8) (off : ℕ) (src : ℕ → UInt8) (n : ℕ) : ℕ → UInt8 :=
  fun i => if off ≤ i ∧ i < off + n then src (i - off) else dst i

/-! ## The text after the key -/

/-- A natural number as `%d` prints it. -/
def decimal (n : ℕ) : List Char :=
  if n = 0 then ['0'] else (Nat.digits 10 n).reverse.map Nat.digitChar

/-- An integer as `%d` prints it. -/
def decimalInt : ℤ → List Char
  | .ofNat n => decimal n
  | .negSucc n => '-' :: decimal (n + 1)

/-- The text `snprintf(suffix, 40, " %d %d\r\n", flags, nbytes - 2)`. -/
def itemSuffix (flags : Int32) (nbytes : ℕ) : List Char :=
  ' ' :: (decimalInt flags.toInt ++ ' ' :: (decimalInt (nbytes - 2) ++ ['\r', '\n']))

/-- `ItemMakeHeader`: the size of an item without its CAS field. `nkey` and `*nsuffix` are
`uint8_t`. -/
def itemMakeHeader (nkey : ℕ) (flags : Int32) (nbytes : ℕ) : ℕ :=
  sizeofItem + nkey % 256 + (itemSuffix flags nbytes).length % 256 + nbytes

/-- The value of a run of decimal digits read onto `acc`. -/
def readDigits (acc : ℕ) : List Char → ℕ
  | [] => acc
  | c :: cs => if c.isDigit then readDigits (10 * acc + (c.toNat - 48)) cs else acc

/-- `strtol(text, NULL, 10)`: blanks, an optional sign, then digits. -/
def strtol : List Char → ℤ
  | [] => 0
  | c :: cs =>
    if c.isWhitespace then strtol cs
    else if c = '-' then -(readDigits 0 cs : ℤ)
    else if c = '+' then readDigits 0 cs
    else readDigits 0 (c :: cs)

theorem readDigits_append (ds : List ℕ) (hds : ∀ d ∈ ds, d < 10) (acc : ℕ) (rest : List Char) :
    readDigits acc (ds.map Nat.digitChar ++ ' ' :: rest) =
      ds.foldl (fun a d => 10 * a + d) acc := by
  induction ds generalizing acc with
  | nil => rfl
  | cons d ds ih =>
    have hd : d < 10 := hds d List.mem_cons_self
    have hdig : d.digitChar.isDigit = true := by rw [Nat.isDigit_digitChar]; simpa using hd
    have hval : d.digitChar.toNat - 48 = d := by
      rw [Nat.toNat_digitChar_of_lt_ten hd]; omega
    rw [List.map_cons, List.cons_append, readDigits, if_pos hdig, hval, List.foldl_cons]
    exact ih (fun d hd => hds d (List.mem_cons_of_mem _ hd)) _

/-- The digits `%d` prints are decimal, and folding them gives the number back. -/
theorem decimal_eq (n : ℕ) : ∃ d ds, decimal n = (d :: ds).map Nat.digitChar ∧
    (∀ e ∈ d :: ds, e < 10) ∧ (d :: ds).foldl (fun a d => 10 * a + d) 0 = n := by
  unfold decimal
  split_ifs with h
  · exact ⟨0, [], rfl, by simp, by simp [h]⟩
  · have hne : (Nat.digits 10 n).reverse ≠ [] := by
      rw [ne_eq, List.reverse_eq_nil_iff, Nat.digits_eq_nil_iff_eq_zero]
      exact h
    obtain ⟨d, ds, hds⟩ := List.exists_cons_of_ne_nil hne
    refine ⟨d, ds, by rw [hds], fun e he => ?_, ?_⟩
    · rw [← hds, List.mem_reverse] at he
      exact Nat.digits_lt_base (by norm_num) he
    · rw [← hds, List.foldl_reverse]
      have := Nat.ofDigits_digits 10 n
      rw [Nat.ofDigits_eq_foldr] at this
      simpa [add_comm] using this

theorem readDigits_decimal (n : ℕ) (rest : List Char) :
    readDigits 0 (decimal n ++ ' ' :: rest) = n := by
  obtain ⟨d, ds, he, hlt, hv⟩ := decimal_eq n
  rw [he, readDigits_append _ hlt, hv]

theorem strtol_decimalInt (n : ℤ) (rest : List Char) :
    strtol (decimalInt n ++ ' ' :: rest) = n := by
  cases n with
  | ofNat n =>
    obtain ⟨d, ds, he, hlt, -⟩ := decimal_eq n
    have hd : d < 10 := hlt d List.mem_cons_self
    have hr := readDigits_decimal n rest
    have hw : d.digitChar.isWhitespace = false ∧ d.digitChar ≠ '-' ∧ d.digitChar ≠ '+' := by
      interval_cases d <;> decide
    rw [he, List.map_cons, List.cons_append] at hr
    rw [decimalInt, he, List.map_cons, List.cons_append, strtol, hw.1, if_neg (by simp),
      if_neg hw.2.1, if_neg hw.2.2, hr]
    rfl
  | negSucc n =>
    rw [decimalInt, List.cons_append, strtol, if_neg (by decide), if_pos rfl, readDigits_decimal]
    rfl

theorem length_decimal_le {n k : ℕ} (hk : 1 ≤ k) (h : n < 10 ^ k) : (decimal n).length ≤ k := by
  unfold decimal
  split_ifs
  · exact hk
  · rw [List.length_map, List.length_reverse]
    exact (Nat.digits_length_le_iff (by norm_num) n).mpr h

theorem length_decimalInt_le {n : ℤ} {k : ℕ} (hk : 1 ≤ k) (h : n.natAbs < 10 ^ k) :
    (decimalInt n).length ≤ k + 1 := by
  cases n with
  | ofNat n => exact (length_decimal_le hk h).trans (Nat.le_succ k)
  | negSucc n => exact Nat.succ_le_succ (length_decimal_le hk h)

/-- The text fits the buffer of 40 characters. -/
theorem length_itemSuffix_lt_buffer (flags : Int32) {nbytes : ℕ} (h : nbytes < 2 ^ 31) :
    (itemSuffix flags nbytes).length < 40 := by
  have h1 : (decimalInt flags.toInt).length ≤ 11 := by
    refine length_decimalInt_le (by decide) ?_
    have := flags.toInt_lt
    have := flags.le_toInt
    omega
  have h2 : (decimalInt ((nbytes : ℤ) - 2)).length ≤ 11 :=
    length_decimalInt_le (by decide) (by omega)
  simp only [itemSuffix, List.length_cons, List.length_append, List.length_nil]
  omega

/-- The length of the suffix is an `uint8_t`. -/
theorem length_itemSuffix_lt (flags : Int32) {nbytes : ℕ} (h : nbytes < 2 ^ 31) :
    (itemSuffix flags nbytes).length < 256 :=
  (length_itemSuffix_lt_buffer flags h).trans (by decide)

/-- **The flags survive in the suffix text**: `strtol` on it reads back the flags it was printed
with, for every `int`, whatever bytes follow the text. -/
theorem strtol_itemSuffix_append (flags : Int32) (nbytes : ℕ) (rest : List Char) :
    Int32.ofInt (strtol (itemSuffix flags nbytes ++ rest)) = flags := by
  rw [itemSuffix, List.cons_append, List.append_assoc, List.cons_append, strtol,
    if_pos (by decide), strtol_decimalInt, Int32.ofInt_toInt]

theorem strtol_itemSuffix (flags : Int32) (nbytes : ℕ) :
    Int32.ofInt (strtol (itemSuffix flags nbytes)) = flags := by
  have := strtol_itemSuffix_append flags nbytes []
  rwa [List.append_nil] at this

end Mdb
