import Mdb.Lib.Bytes
import Mdb.Util
import Mdb.Store.Inv

/-!
# The cache dump

`ItemCacheDump` writes a line for each item of a queue into a buffer of 2 MiB, and `END` behind them.

* `Store.dumpLine`: the text of an item; `snprintf`; `Dump`: the buffer and the two counters;
* `Store.dumpLoop`, `Store.itemCacheDump`: the functions as they are;
* `Dump.Shows`: lines have been added to a buffer; **`dumpLoop_shows`**: the loop adds the lines of a
  prefix of the items, and it stops short only for want of room;
* **`cache_dump_faithful`**: what the buffer holds in the end.
-/

namespace Mdb

open Dll

/-! ## The functions -/

/-- `memlimit`: the size of the buffer. -/
def memlimit : ℕ := 2 * 1024 * 1024

/-- `"END\r\n"` with its NUL. -/
def dumpEnd : List UInt8 := textBytes ['E', 'N', 'D', '\r', '\n'] ++ [0]

/-- The text `"ITEM %s [%d b; %lu s]\r\n"`. -/
def itemLine (key : List UInt8) (size : Int32) (expires : UInt64) : List UInt8 :=
  textBytes "ITEM ".toList ++ (key ++ textBytes (" [".toList ++ (decimalInt size.toInt ++
    (" b; ".toList ++ (decimal expires.toNat ++ [' ', 's', ']', '\r', '\n'])))))

/-- What is printed for `%s`: the bytes before the first NUL. -/
def untilNul (bytes : List UInt8) : List UInt8 := bytes.takeWhile (· ≠ 0)

/-- `snprintf(temp, size, ..)`: the length of the text, and what `temp` holds of it. -/
def snprintf (size : ℕ) (text : List UInt8) : ℕ × List UInt8 := (text.length, text.take (size - 1))

/-- The buffer, `bufcurr` and `shown`. -/
structure Dump where
  buffer : ℕ → UInt8
  bufcurr : ℕ
  shown : ℕ

namespace Store

variable (s : Store)

/-- The text for item `it`; `started` is `g_process_started`. -/
def dumpLine (started : UInt64) (it : Ptr) : List UInt8 :=
  itemLine (untilNul (s.heap.key it).bytes) (Int32.ofNat (s.heap.nbytes it) - 2)
    ((s.heap.exptime it).toUInt64 + started)

/-- The loop from node `it` on; `none` if there is not enough fuel to reach its end. -/
def dumpLoop (started : UInt64) (limit : ℕ) : ℕ → Option Ptr → Dump → Option Dump
  | _, none, d => some d
  | 0, some _, _ => none
  | fuel + 1, some it, d =>
    if limit = 0 ∨ d.shown < limit then
      if s.heap.nbytes it = 0 ∧ s.heap.nkey it = 0 then
        dumpLoop started limit fuel (s.heap.next it) d
      else
        let (len, temp) := snprintf 512 (s.dumpLine started it)
        if memlimit < d.bufcurr + len + 6 then some d
        else dumpLoop started limit fuel (s.heap.next it)
          { buffer := memcpy d.buffer d.bufcurr (Bytes.ofList 0 temp) len
            bufcurr := d.bufcurr + len
            shown := d.shown + 1 }
    else some d

/-- The queue that is dumped. -/
def dumpId (slabsClsid : ℕ) : ℕ :=
  if s.settings.lruMaintainerThread then slabsClsid else slabsClsid ||| LruStatus.cold.val

/-- `ItemCacheDump(slabs_clsid, limit, bytes)`: the buffer and `*bytes`. `malloc` is what the `malloc`
returns, a block with arbitrary contents or null. -/
def itemCacheDump (fuel : ℕ) (started : UInt64) (malloc : Option (ℕ → UInt8)) (slabsClsid : ℕ)
    (limit : UInt32) : Option (Option ((ℕ → UInt8) × ℕ)) :=
  match malloc with
  | none => some none
  | some buffer =>
    (s.dumpLoop started limit.toNat fuel (s.lru.heads (s.dumpId slabsClsid)) ⟨buffer, 0, 0⟩).map
      fun d => some (memcpy d.buffer d.bufcurr (Bytes.ofList 0 dumpEnd) 6, d.bufcurr + 5)

end Store

/-! ## Lines -/

theorem length_itemLine_le {key : List UInt8} (hk : key.length ≤ keyMaxLength) (size : Int32)
    (expires : UInt64) : (itemLine key size expires).length ≤ 297 := by
  have h1 : (decimalInt size.toInt).length ≤ 11 := by
    apply length_decimalInt_le (by decide)
    have := size.toInt_lt
    have := size.le_toInt
    omega
  have h2 : (decimal expires.toNat).length ≤ 20 := by
    apply length_decimal_le (by decide)
    have := expires.toNat_lt
    omega
  have h3 : "ITEM ".toList.length = 5 := by decide
  have h4 : " [".toList.length = 2 := by decide
  have h5 : " b; ".toList.length = 4 := by decide
  simp only [itemLine, textBytes, List.length_append, List.length_map, List.length_cons,
    List.length_nil, h3, h4, h5]
  simp only [keyMaxLength] at hk
  omega

theorem length_dumpLine_le (s : Store) (started : UInt64) (it : Ptr) :
    (s.dumpLine started it).length ≤ 297 := by
  apply length_itemLine_le
  exact (List.takeWhile_sublist _).length_le.trans (s.heap.key it).length_le

/-- **No line is cut off.** -/
theorem snprintf_dumpLine (s : Store) (started : UInt64) (it : Ptr) :
    snprintf 512 (s.dumpLine started it) =
      ((s.dumpLine started it).length, s.dumpLine started it) := by
  have h := length_dumpLine_le s started it
  rw [snprintf, List.take_of_length_le (by omega)]

theorem untilNul_eq_self {bytes : List UInt8} (h : 0 ∉ bytes) : untilNul bytes = bytes := by
  apply List.takeWhile_eq_self_iff.2
  intro c hc
  simpa using ne_of_mem_of_not_mem hc h

/-! ## The loop -/

/-- A line is written behind the others. -/
def Dump.add (d : Dump) (line : List UInt8) : Dump where
  buffer := memcpy d.buffer d.bufcurr (Bytes.ofList 0 line) line.length
  bufcurr := d.bufcurr + line.length
  shown := d.shown + 1

/-- **The lines of `xs` were added** to `d`, and nothing else was written. -/
structure Dump.Shows (line : Ptr → List UInt8) (d d' : Dump) (xs : List Ptr) : Prop where
  shown : d'.shown = d.shown + xs.length
  bufcurr : d'.bufcurr = d.bufcurr + (xs.flatMap line).length
  read : Bytes.read d'.buffer d.bufcurr (xs.flatMap line).length = xs.flatMap line
  before : ∀ i, i < d.bufcurr → d'.buffer i = d.buffer i
  behind : ∀ i, d'.bufcurr ≤ i → d'.buffer i = d.buffer i

theorem Dump.Shows.nil {line : Ptr → List UInt8} (d : Dump) : Shows line d d [] := by
  constructor <;> simp [Bytes.read]

/-- A line, and then others. -/
theorem Dump.Shows.cons {line : Ptr → List UInt8} {d d' : Dump} {x : Ptr} {xs : List Ptr}
    (h : Shows line (d.add (line x)) d' xs) : Shows line d d' (x :: xs) := by
  have hcurr : d'.bufcurr = d.bufcurr + ((line x).length + (xs.flatMap line).length) := by
    rw [h.bufcurr, Dump.add, Nat.add_assoc]
  have hfirst : Bytes.read d'.buffer d.bufcurr (line x).length = line x := by
    calc Bytes.read d'.buffer d.bufcurr (line x).length
        = Bytes.read (d.add (line x)).buffer d.bufcurr (line x).length := by
          apply Bytes.read_congr
          intro i hi
          exact h.before _ (Nat.add_lt_add_left hi _)
      _ = Bytes.read (Bytes.ofList 0 (line x)) 0 (line x).length := Bytes.read_copy
      _ = line x := Bytes.read_ofList 0 (line x)
  constructor
  · rw [h.shown, List.length_cons]
    simp only [Dump.add]
    omega
  · rw [hcurr, List.flatMap_cons, List.length_append]
  · rw [List.flatMap_cons, List.length_append, Bytes.read_add, hfirst]
    exact congrArg _ h.read
  · intro i hi
    rw [h.before i (Nat.lt_add_right _ hi)]
    exact Bytes.copy_outside (.inl hi)
  · intro i hi
    rw [h.behind i hi]
    exact Bytes.copy_outside (.inr (by omega))

theorem dumpLoop_none (s : Store) (started : UInt64) (limit fuel : ℕ) (d : Dump) :
    s.dumpLoop started limit fuel none d = some d := by
  cases fuel <;> rfl

/-- What one round of the loop does. -/
theorem dumpLoop_some (s : Store) (started : UInt64) (limit fuel : ℕ) (it : Ptr) (d : Dump) :
    s.dumpLoop started limit (fuel + 1) (some it) d =
      if limit = 0 ∨ d.shown < limit then
        if s.heap.nbytes it = 0 ∧ s.heap.nkey it = 0 then
          s.dumpLoop started limit fuel (s.heap.next it) d
        else if memlimit < d.bufcurr + (s.dumpLine started it).length + 6 then some d
        else s.dumpLoop started limit fuel (s.heap.next it) (d.add (s.dumpLine started it))
      else some d := by
  rw [Store.dumpLoop, snprintf_dumpLine]
  rfl

/-- **The loop over the nodes `l`**: it adds the lines of the first items and keeps room for the end.
It stops before an item only at the limit, or if there is no room for its line. -/
theorem dumpLoop_shows {s : Store} (started : UInt64) (limit : ℕ) {l : List Ptr} {p : Option Ptr}
    (hseg : Seg s.heap.next s.heap.prev p l none)
    (hskip : ∀ x ∈ l, (s.heap.nbytes x = 0 ∧ s.heap.nkey x = 0) ↔ x.isChunk = false) {fuel : ℕ}
    (hfuel : l.length ≤ fuel) {d : Dump} (hroom : d.bufcurr + 6 ≤ memlimit)
    (hlimit : limit = 0 ∨ d.shown ≤ limit) :
    ∃ d' shown rest, s.dumpLoop started limit fuel l.head? d = some d' ∧
      l.filter Ptr.isChunk = shown ++ rest ∧ d.Shows (s.dumpLine started) d' shown ∧
      d'.bufcurr + 6 ≤ memlimit ∧ (limit = 0 ∨ d'.shown ≤ limit) ∧
      ∀ x ∈ rest.head?, limit = 0 ∨ d'.shown < limit →
        memlimit < d'.bufcurr + (s.dumpLine started x).length + 6 := by
  induction l generalizing p fuel d with
  | nil => exact ⟨d, [], [], dumpLoop_none .., rfl, .nil d, hroom, hlimit, by simp⟩
  | cons x l ih =>
    obtain ⟨fuel, rfl⟩ : ∃ n, fuel = n + 1 := ⟨fuel - 1, by rw [List.length_cons] at hfuel; omega⟩
    have hfuel' : l.length ≤ fuel := by simpa using hfuel
    have hnext : s.heap.next x = l.head? := by simpa using hseg.2.1
    have hskip' : ∀ y ∈ l, (s.heap.nbytes y = 0 ∧ s.heap.nkey y = 0) ↔ y.isChunk = false :=
      fun y hy => hskip y (List.mem_cons_of_mem _ hy)
    have hx := hskip x List.mem_cons_self
    rw [List.head?_cons, dumpLoop_some, hnext]
    by_cases hlt : limit = 0 ∨ d.shown < limit
    · rw [if_pos hlt]
      cases hc : x.isChunk with
      | false =>
        -- a crawler node is passed over
        rw [if_pos (hx.2 hc), List.filter_cons_of_neg (by simp [hc])]
        exact ih hseg.2.2 hskip' hfuel' hroom hlimit
      | true =>
        have hne : ¬ (s.heap.nbytes x = 0 ∧ s.heap.nkey x = 0) := by
          rw [hx, hc]
          decide
        rw [if_neg hne, List.filter_cons_of_pos hc]
        by_cases hfull : memlimit < d.bufcurr + (s.dumpLine started x).length + 6
        · rw [if_pos hfull]
          refine ⟨d, [], x :: l.filter Ptr.isChunk, rfl, rfl, .nil d, hroom, hlimit, ?_⟩
          simpa using fun _ => hfull
        · rw [if_neg hfull]
          obtain ⟨d', shown, rest, hd, hl, hs, hroom', hlimit', hstop⟩ :=
            ih (d := d.add (s.dumpLine started x)) hseg.2.2 hskip' hfuel'
              (by simp only [Dump.add]; omega) (by simp only [Dump.add]; omega)
          exact ⟨d', x :: shown, rest, hd, by rw [hl]; rfl, hs.cons, hroom', hlimit', hstop⟩
    · rw [if_neg hlt]
      refine ⟨d, [], (x :: l).filter Ptr.isChunk, rfl, rfl, .nil d, hroom, hlimit, ?_⟩
      intro y _ hy
      exact absurd hy hlt

/-! ## The dump -/

/-- In a store that satisfies the invariant a node that is no item is blank, as `DoLRUCrawlerStart`
has made it. -/
theorem Inv.crawler_blank {b : Base} {s : Store} {v : View} {refs : Ptr → ℕ} (h : Inv b s v refs)
    {q : ℕ} {x : Ptr} (hx : x ∈ v.queue q) (hc : x.isChunk = false) :
    s.heap.nbytes x = 0 ∧ s.heap.key x = .empty := by
  rcases (h.queue_iff x q).1 hx with ⟨hitem, -⟩ | ⟨rfl, hon⟩
  · have := h.alloc_isChunk (h.items_alloc x hitem)
    simp [hc] at this
  · exact (h.crawler q hon).2

/-- **The loop passes over the crawlers, and over nothing else**: an item has a key. -/
theorem blank_iff {s : Store} {x : Ptr} (hitem : x.isChunk = true → (s.heap.key x).bytes ≠ [])
    (hcrawler : x.isChunk = false → s.heap.nbytes x = 0 ∧ s.heap.key x = .empty) :
    (s.heap.nbytes x = 0 ∧ s.heap.nkey x = 0) ↔ x.isChunk = false := by
  constructor
  · rintro ⟨-, hk⟩
    by_contra hc
    exact hitem (by simpa using hc) (List.length_eq_zero_iff.1 hk)
  · intro hc
    obtain ⟨hn, hk⟩ := hcrawler hc
    refine ⟨hn, ?_⟩
    rw [Heap.nkey, hk]
    rfl

/-- The end is written behind the lines. -/
theorem Dump.Shows.read_end {line : Ptr → List UInt8} {buffer : ℕ → UInt8} {d : Dump}
    {xs : List Ptr} (h : Shows line ⟨buffer, 0, 0⟩ d xs) :
    Bytes.read (memcpy d.buffer d.bufcurr (Bytes.ofList 0 dumpEnd) 6) 0 (d.bufcurr + 6) =
      xs.flatMap line ++ dumpEnd := by
  have hcurr : d.bufcurr = (xs.flatMap line).length := h.bufcurr.trans (Nat.zero_add _)
  have hlines : Bytes.read (memcpy d.buffer d.bufcurr (Bytes.ofList 0 dumpEnd) 6) 0 d.bufcurr =
      xs.flatMap line := by
    calc Bytes.read (memcpy d.buffer d.bufcurr (Bytes.ofList 0 dumpEnd) 6) 0 d.bufcurr
        = Bytes.read d.buffer 0 d.bufcurr := Bytes.read_copy_of_disjoint (.inl (by omega))
      _ = xs.flatMap line := by
        rw [hcurr]
        exact h.read
  have hend : Bytes.read (memcpy d.buffer d.bufcurr (Bytes.ofList 0 dumpEnd) 6) d.bufcurr 6 =
      dumpEnd := by
    calc Bytes.read (memcpy d.buffer d.bufcurr (Bytes.ofList 0 dumpEnd) 6) d.bufcurr 6
        = Bytes.read (Bytes.ofList 0 dumpEnd) 0 6 := Bytes.read_copy
      _ = dumpEnd := Bytes.read_ofList 0 dumpEnd
  rw [Bytes.read_add, hlines, Nat.zero_add, hend]

/-- **The line of an item**, with its whole key. -/
def Store.itemText (s : Store) (started : UInt64) (it : Ptr) : List UInt8 :=
  itemLine (s.heap.key it).bytes (Int32.ofNat (s.heap.nbytes it) - 2)
    ((s.heap.exptime it).toUInt64 + started)

theorem dumpLine_eq {s : Store} {it : Ptr} (h : 0 ∉ (s.heap.key it).bytes) (started : UInt64) :
    s.dumpLine started it = s.itemText started it := by
  rw [Store.dumpLine, Store.itemText, untilNul_eq_self h]

theorem dumpId_lt {s : Store} {slabsClsid : ℕ} (h : slabsClsid < maxNumberOfSlabClasses) :
    s.dumpId slabsClsid < largestId := by
  have h6 : slabsClsid < 2 ^ 8 := h.trans (by decide)
  have hc : LruStatus.cold.val < 2 ^ 8 := by decide
  unfold Store.dumpId
  split_ifs
  · exact h6
  · exact Nat.or_lt_two_pow h6 hc

/-- **The dump is a bounded faithful prefix**: with a buffer from `malloc` the function returns, for
queues of any length. The `*bytes + 1` bytes that it has written fit the buffer and are the lines of
the first items, `END` and a NUL. There are at most `limit` lines, unless `limit` is 0; and they end
before the limit and the last item only if there is no room for the next one and the end. -/
theorem cache_dump_faithful {s : Store} {queue : ℕ → List Ptr} (hq : s.Queues queue) {slabsClsid : ℕ}
    (hcls : slabsClsid < maxNumberOfSlabClasses)
    (hitem : ∀ x ∈ queue (s.dumpId slabsClsid), x.isChunk = true →
      (s.heap.key x).bytes ≠ [] ∧ 0 ∉ (s.heap.key x).bytes)
    (hcrawler : ∀ x ∈ queue (s.dumpId slabsClsid), x.isChunk = false →
      s.heap.nbytes x = 0 ∧ s.heap.key x = .empty)
    (started : UInt64) (limit : UInt32) (buffer : ℕ → UInt8) {fuel : ℕ}
    (hfuel : (queue (s.dumpId slabsClsid)).length ≤ fuel) :
    s.dumpId slabsClsid < largestId ∧ ∃ m bytes shown rest,
      s.itemCacheDump fuel started (some buffer) slabsClsid limit = some (some (m, bytes)) ∧
      (queue (s.dumpId slabsClsid)).filter Ptr.isChunk = shown ++ rest ∧
      bytes + 1 ≤ 2 * 1024 * 1024 ∧
      Bytes.read m 0 (bytes + 1) = shown.flatMap (s.itemText started) ++ dumpEnd ∧
      (∀ i, bytes + 1 ≤ i → m i = buffer i) ∧
      (limit ≠ 0 → shown.length ≤ limit.toNat) ∧
      ∀ x ∈ rest.head?, limit = 0 ∨ shown.length < limit.toNat →
        2 * 1024 * 1024 < (shown.flatMap (s.itemText started)).length +
          (s.itemText started x).length + 6 := by
  refine ⟨dumpId_lt hcls, ?_⟩
  have hdll := hq.dll (s.dumpId slabsClsid)
  have hskip : ∀ x ∈ queue (s.dumpId slabsClsid),
      (s.heap.nbytes x = 0 ∧ s.heap.nkey x = 0) ↔ x.isChunk = false :=
    fun x hx => blank_iff (fun hc => (hitem x hx hc).1) (hcrawler x hx)
  have hroom : 0 + 6 ≤ memlimit := by decide
  obtain ⟨d, shown, rest, hd, hl, hs, hroom', hlimit, hstop⟩ :=
    dumpLoop_shows started limit.toNat hdll.seg hskip hfuel (d := ⟨buffer, 0, 0⟩) hroom
      (.inr (Nat.zero_le _))
  rw [← hdll.head_eq] at hd
  have hline : ∀ x ∈ shown ++ rest, s.dumpLine started x = s.itemText started x := by
    intro x hx
    rw [← hl, List.mem_filter] at hx
    exact dumpLine_eq (hitem x hx.1 hx.2).2 started
  have htext : shown.flatMap (s.dumpLine started) = shown.flatMap (s.itemText started) := by
    apply List.flatMap_congr
    intro x hx
    exact hline x (List.mem_append_left _ hx)
  have hcurr : d.bufcurr = (shown.flatMap (s.itemText started)).length := by
    rw [hs.bufcurr, htext, Nat.zero_add]
  have hshown : d.shown = shown.length := by rw [hs.shown, Nat.zero_add]
  have hzero : limit = 0 ↔ limit.toNat = 0 := by
    rw [← UInt32.toNat_inj]
    rfl
  have hmem : memlimit = 2 * 1024 * 1024 := rfl
  refine ⟨memcpy d.buffer d.bufcurr (Bytes.ofList 0 dumpEnd) 6, d.bufcurr + 5, shown, rest, ?_, hl,
    by omega, ?_, ?_, ?_, ?_⟩
  · simp only [Store.itemCacheDump, hd, Option.map_some]
  · rw [← htext]
    exact hs.read_end
  · intro i hi
    have hkept : d.buffer i = buffer i := hs.behind i (by omega)
    rw [← hkept]
    exact Bytes.copy_outside (.inr hi)
  · intro hne
    rw [ne_eq, hzero] at hne
    omega
  · intro x hx hlt
    have hx' : s.dumpLine started x = s.itemText started x :=
      hline x (List.mem_append_right _ (List.mem_of_head? hx))
    rw [hzero, ← hshown] at hlt
    have := hstop x hx hlt
    rwa [hx', hcurr] at this

/-- Every item is of class 1 and has the key `k`; the queues are empty. -/
def dumpBase : Store :=
  { Store.initial 1 (fun _ => 0) (.initial 0) .failing with
    heap := { Heap.zero with
      slabsClsid := fun _ => 129
      nbytes := fun p => if p.isChunk then 5 else 0
      key := fun p => if p.isChunk then .byte 107 else .empty } }

/-- The `COLD` queue holds an item and a crawler. -/
def dumpStore : Store := (dumpBase.doItemLinkQ (.chunk 64) false).doItemLinkQ (.crawler 129) true

theorem dumpStore_queues :
    dumpStore.Queues (Function.update (fun _ => []) 129 [.chunk 64, .crawler 129]) := by
  have h0 : dumpBase.Queues fun _ => [] := .empty (fun _ => rfl) (fun _ => rfl) fun _ => rfl
  have h1 : (dumpBase.doItemLinkQ (.chunk 64) false).Queues
      (Function.update (fun _ => []) 129 [.chunk 64]) := QueuesOk.linkQ h0 (by simp)
  exact QueuesOk.linkQ_single h1 rfl (by simp)

/-- The dump of a queue with one item. -/
theorem cache_dump_faithful_one : ∃ m bytes shown rest,
    dumpStore.itemCacheDump 2 1000 (some fun _ => 0) 1 0 = some (some (m, bytes)) ∧
    [Ptr.chunk 64] = shown ++ rest ∧
    Bytes.read m 0 (bytes + 1) = shown.flatMap (dumpStore.itemText 1000) ++ dumpEnd := by
  have hq : Function.update (fun _ => []) 129 [.chunk 64, .crawler 129] (dumpStore.dumpId 1) =
      [Ptr.chunk 64, .crawler 129] := rfl
  have hitem : ∀ x ∈ [Ptr.chunk 64, .crawler 129], x.isChunk = true →
      (dumpStore.heap.key x).bytes ≠ [] ∧ 0 ∉ (dumpStore.heap.key x).bytes := by decide
  have hcrawler : ∀ x ∈ [Ptr.chunk 64, .crawler 129], x.isChunk = false →
      dumpStore.heap.nbytes x = 0 ∧ dumpStore.heap.key x = .empty := by decide
  obtain ⟨-, m, bytes, shown, rest, hd, hl, -, hr, -⟩ :=
    @cache_dump_faithful dumpStore _ dumpStore_queues 1 (by decide) (hq ▸ hitem) (hq ▸ hcrawler) 1000 0
      (fun _ => 0) 2 (hq ▸ le_rfl)
  exact ⟨m, bytes, shown, rest, hd, hl, hr⟩

end Mdb
