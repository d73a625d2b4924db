import Mdb.State

/-!
# The slab allocator

`SlabsManager`: classes of equal-sized chunks, carved out of pages and kept on one freelist per
class.

* `initSlabs`: the table of chunk sizes; `Slabs.Valid`: what the allocator needs of it;
* `slabsClsid`, `memoryAllocator`, `growSlabList`, `doSlabsFree`, `freeSlabPage`,
  `doSlabsNewSlab`, `doSlabsAlloc`, `removeSlot`;
* `pageChunks`, `Slabs.chunks`: the chunks of a page and of a class.
-/

namespace Mdb

open Dll

/-- The bytes of a page of a class: `DoSlabsNewSlab`'s `len`. -/
def SlabClass.pageLen (p : SlabClass) (st : Settings) : ℕ :=
  if st.slabReassign then st.itemSizeMax else p.size * p.perslab

/-- The chunks `FreeSlabPage` cuts a page into. -/
def pageChunks (ptr size perslab : ℕ) : List Ptr :=
  (List.range perslab).map fun x => .chunk (ptr + x * size)

/-- The chunks of the pages of class `c`. -/
def Slabs.chunks (sl : Slabs) (c : ℕ) : List Ptr :=
  (sl.slabclass c).slabList.flatMap fun ptr =>
    pageChunks ptr (sl.slabclass c).size (sl.slabclass c).perslab

/-- `id >= POWER_SMALLEST && id <= power_largest_`. -/
def Slabs.InRange (sl : Slabs) (id : ℕ) : Prop := powerSmallest ≤ id ∧ id ≤ sl.powerLargest

instance (sl : Slabs) (id : ℕ) : Decidable (sl.InRange id) := inferInstanceAs (Decidable (_ ∧ _))

/-- A block that no page overlaps: all that a program may assume of a successful `malloc`. -/
def Slabs.FreshBlock (sl : Slabs) (st : Settings) (ptr len : ℕ) : Prop :=
  ∀ c < maxNumberOfSlabClasses, ∀ p ∈ (sl.slabclass c).slabList,
    ptr + len ≤ p ∨ p + (sl.slabclass c).pageLen st ≤ ptr

instance (sl : Slabs) (st : Settings) (ptr len : ℕ) : Decidable (sl.FreshBlock st ptr len) :=
  inferInstanceAs (Decidable (∀ c < _, ∀ p ∈ _, _ ∨ _))

/-- The last two assignments of `DoSlabsNewSlab`: a page of `len` bytes joins class `id`. -/
def Slabs.addPage (sl : Slabs) (id ptr len : ℕ) : Slabs :=
  { sl with
    slabclass := Function.update sl.slabclass id { sl.slabclass id with
      slabs := (sl.slabclass id).slabs + 1
      slabList := (sl.slabclass id).slabList ++ [ptr] }
    memMalloced := sl.memMalloced + len }

/-! ## The table of sizes -/

/-- `size` rounded up to `CHUNK_ALIGN_BYTES`. -/
def alignUp (size : ℕ) : ℕ :=
  if size % chunkAlignBytes ≠ 0 then size + (chunkAlignBytes - size % chunkAlignBytes) else size

/-- The loop of `InitSlabs` from class `i` on; the factor is `num / den`. The fuel is the number of
classes left. -/
def initSlabsLoop (st : Settings) (num den : ℕ) :
    ℕ → ℕ → ℕ → (ℕ → SlabClass) → ℕ × (ℕ → SlabClass)
  | 0, i, _, t => (i, t)
  | fuel + 1, i, size, t =>
    if size * num ≤ st.itemSizeMax * den then
      let size := alignUp size
      initSlabsLoop st num den fuel (i + 1) (size * num / den) (Function.update t i
        { t i with size := size, perslab := st.itemSizeMax / size })
    else (i, t)

/-- `InitSlabs(limit, num / den, prealloc)`; `base` is what the `malloc` of the whole memory
returned, `none` without preallocation. -/
def initSlabs (st : Settings) (limit num den : ℕ) (base : Option ℕ) : Slabs :=
  let r := initSlabsLoop st num den (maxNumberOfSlabClasses - 2) powerSmallest
    (sizeofItem + st.chunkSize) (Slabs.initial limit).slabclass
  { Slabs.initial limit with
    memBase := base
    memCurrent := base.getD 0
    memAvail := if base.isSome then limit else 0
    powerLargest := r.1
    slabclass := Function.update r.2 r.1
      { r.2 r.1 with size := st.itemSizeMax, perslab := 1 } }

/-- The slabs of `InitDB`: 64 MB, factor 1.25. -/
def initDBSlabs (base : Option ℕ) : Slabs :=
  initSlabs initDBSettings (64 * 1024 * 1024) 5 4 base

/-- **What the allocator needs of the table**: real chunks that fit a page, few enough to be counted
by an `unsigned int`. -/
structure Slabs.Valid (sl : Slabs) (st : Settings) : Prop where
  powerLargest_lt : sl.powerLargest < maxNumberOfSlabClasses
  perslab_pos : ∀ c, sl.InRange c → 1 ≤ (sl.slabclass c).perslab
  size_ge : ∀ c, sl.InRange c → sizeofItem ≤ (sl.slabclass c).size
  fits : ∀ c, sl.InRange c → (sl.slabclass c).size * (sl.slabclass c).perslab ≤ st.itemSizeMax
  itemSizeMax_le : st.itemSizeMax ≤ 2 ^ 30
  memLimit_pos : 0 < sl.memLimit
  memLimit_le : sl.memLimit ≤ 2 ^ 30

namespace Store

variable (s : Store)

/-- `slabclass_[id] = p`. -/
def setClass (id : ℕ) (p : SlabClass) : Store :=
  { s with slabs := { s.slabs with slabclass := Function.update s.slabs.slabclass id p } }

/-- The search of `SlabsClsid` from class `res` on. -/
def slabsClsidFrom (sl : Slabs) (size : ℕ) : ℕ → ℕ → ℕ
  | 0, _ => 0
  | fuel + 1, res =>
    if (sl.slabclass res).size < size then
      if res = sl.powerLargest then 0 else slabsClsidFrom sl size fuel (res + 1)
    else res

/-- `SlabsClsid(size)`: the smallest class whose chunks are large enough, `0` if there is none. -/
def slabsClsid (size : ℕ) : ℕ :=
  if size = 0 then 0
  else slabsClsidFrom s.slabs size (s.slabs.powerLargest + 1) powerSmallest

/-- `MemoryAllocator(size)`. -/
def memoryAllocator (size : ℕ) : Option ℕ × Store :=
  match s.slabs.memBase with
  | none =>
    let s' := { s with env := { s.env with mallocs := fun n => s.env.mallocs (n + 1) } }
    match s.env.mallocs 0 with
    | none => (none, s')
    | some ptr => if s.slabs.FreshBlock s.settings ptr size then (some ptr, s') else (none, s')
  | some _ =>
    if s.slabs.memAvail < size then (none, s)
    else
      let size := alignUp size
      (some s.slabs.memCurrent, { s with slabs := { s.slabs with
        memCurrent := s.slabs.memCurrent + size
        memAvail := if size < s.slabs.memAvail then s.slabs.memAvail - size else 0 } })

/-- `GrowSlabList(id)`. -/
def growSlabList (id : ℕ) : Bool × Store :=
  let p := s.slabs.slabclass id
  if p.slabs = p.listSize then
    let s' := { s with env := { s.env with reallocs := fun n => s.env.reallocs (n + 1) } }
    if s.env.reallocs 0 then
      (true, s'.setClass id
        { p with listSize := if p.listSize ≠ 0 then p.listSize * 2 else 16 })
    else (false, s')
  else (true, s)

/-- `DoSlabsFree(it, size, id)`. -/
def doSlabsFree (it : Ptr) (size id : ℕ) : Store :=
  if s.slabs.InRange id then
    let p := s.slabs.slabclass id
    let s := s.setFlags it { s.flags it with slabbed := true }
    let s := s.setClsid it 0
    { s with
      heap := { s.heap with
        next := Function.update s.heap.next it p.slots
        prev := setAt (Function.update s.heap.prev it none) p.slots (some it) } }.setClass id
      { p with
        slots := some it
        slCurr := p.slCurr + 1
        requested := p.requested - UInt64.ofNat size }
  else s

/-- `FreeSlabPage(ptr, id)`. -/
def freeSlabPage (ptr id : ℕ) : Store :=
  let p := s.slabs.slabclass id
  (pageChunks ptr p.size p.perslab).foldl (fun s it => s.doSlabsFree it 0 id) s

/-- The page of `len` bytes at `ptr` is zeroed, cut up and added to class `id`. -/
def carvePage (ptr id len : ℕ) : Store :=
  let p := s.slabs.slabclass id
  let s := { s with heap := s.heap.clear (pageChunks ptr p.size p.perslab) }
  let s := s.freeSlabPage ptr id
  { s with slabs := s.slabs.addPage id ptr len }

/-- `DoSlabsNewSlab(id)`. -/
def doSlabsNewSlab (id : ℕ) : Bool × Store :=
  let p := s.slabs.slabclass id
  let len := p.pageLen s.settings
  if s.slabs.memLimit ≠ 0 ∧ s.slabs.memLimit < s.slabs.memMalloced + len ∧ 0 < p.slabs then
    (false, { s with slabs := { s.slabs with memLimitReached := true } })
  else
    match s.growSlabList id with
    | (false, s) => (false, s)
    | (true, s) =>
      match s.memoryAllocator len with
      | (none, s) => (false, s)
      | (some ptr, s) => (true, s.carvePage ptr id len)

/-- The part of `DoSlabsAlloc` that takes the first chunk off the freelist. -/
def popSlot (it : Ptr) (size id : ℕ) : Store :=
  let p := s.slabs.slabclass id
  let s := { s with heap := { s.heap with prev := setAt s.heap.prev (s.heap.next it) none } }
  let s := s.setFlags it { s.flags it with slabbed := false }
  let s := s.setRefcount it 1
  let s := s.setClass id
    { p with
      slots := s.heap.next it
      slCurr := p.slCurr - 1
      requested := p.requested + UInt64.ofNat size }
  { s with trace := .alloc it :: s.trace }

/-- The part of `SlabsRebalancerMove` that takes a chunk out of the middle of the freelist. -/
def removeSlot (it : Ptr) (id : ℕ) : Store :=
  let p := s.slabs.slabclass id
  let prev := setAt s.heap.prev (s.heap.next it) (s.heap.prev it)
  let next := setAt s.heap.next (prev it) (s.heap.next it)
  { s with heap := { s.heap with next := next, prev := prev } }.setClass id
    { p with
      slots := if p.slots = some it then s.heap.next it else p.slots
      slCurr := p.slCurr - 1 }

/-- `DoSlabsAlloc(size, id, &total_chunks)`: the chunk, `total_chunks`, the store. -/
def doSlabsAlloc (size id : ℕ) (totalChunks : UInt32) : Option Ptr × UInt32 × Store :=
  if s.slabs.InRange id then
    let p := s.slabs.slabclass id
    let totalChunks := UInt32.ofNat (p.slabs * p.perslab)
    let r := if p.slCurr ≠ 0 then (true, s) else s.doSlabsNewSlab id
    let p := r.2.slabs.slabclass id
    match r.1, p.slots with
    | true, some it => if p.slCurr ≠ 0 then (some it, totalChunks, r.2.popSlot it size id)
      else (none, totalChunks, r.2)
    | _, _ => (none, totalChunks, r.2)
  else (none, totalChunks, s)

end Store

end Mdb
