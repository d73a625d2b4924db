import Mdb.Store.Coherence

/-!
# The engine

The interface of `MDB`: `InitDB`, and then `Put`, `Get` and `Delete` of a single client.

* `realTime`, `Store.put`, `Store.get`, `Store.delete`, `initDB`: the functions as they are;
* `Call.expected`, `Call.next`: the map they are meant to be;
* `Bare`: nothing is linked, which no call changes; **`engine_answers`**: when `InitDB` completes, and
  which answers are those of the map; **`engine_not_map`**;
* `LeakFree`: what is allocated is linked and held by nobody; **`calls_leakFree`**: the calls that keep
  this; **`put_leaks`**.
-/

namespace Mdb

open Dll Run

/-! ## The functions of `MDB` -/

/-- `REALTIME_MAXDELTA`. -/
def realtimeMaxdelta : Int64 := 60 * 60 * 24 * 30

/-- `RealTime(exptime)`; `started` is `g_process_started`, `now` is `g_current_time`. -/
def realTime (started now : UInt32) (exptime : Int64) : UInt32 :=
  if exptime = 0 then 0
  else if realtimeMaxdelta < exptime then
    if exptime.toInt ≤ started.toNat then 1 else UInt32.ofInt (exptime.toInt - started.toNat)
  else UInt32.ofInt (exptime.toInt + now.toNat)

/-- What a call returns. `noReturn` is a function that ends without its `return`; the value of a `Get`
is `none` when its bytes are those of a fresh `malloc`. -/
inductive Reply where
  | no
  | yes
  | found (value : Option (List UInt8))
  | noReturn
  deriving DecidableEq

namespace Store

variable (s : Store)

/-- `ItemAlloc`. -/
def itemAlloc (key : Key) (flags : Int32) (exptime : UInt32) (nbytes : ℕ) : Option Ptr × Store :=
  s.doItemAlloc key flags exptime nbytes 0

/-- `ItemGet`. -/
def itemGet (key : Key) : Option Ptr × Store := s.doItemGet key (s.hash key)

/-- `ItemUnlink`. -/
def itemUnlink (it : Ptr) : Store := s.doItemUnlink it (s.hv it)

/-- `ItemRemove`. -/
def itemRemove (it : Ptr) : Store := s.doItemRemove it

/-- `ItemUpdate`. -/
def itemUpdate (it : Ptr) : Store := s.doItemUpdate it

/-- `MDB::Put(key, value)`. The new item is neither filled nor linked. -/
def put (started : UInt32) (key : Key) (value : List UInt8) : Reply × Store :=
  match s.itemAlloc key 0 (realTime started s.now (realtimeMaxdelta + 1)) (value.length + 2) with
  | (none, s) => (.no, s)
  | (some _, s) => (.noReturn, s)

/-- `MDB::Get(key, value)`. Nothing is copied into the memory that `value` is read from. -/
def get (key : Key) : Reply × Store :=
  match s.itemGet key with
  | (none, s) => (.no, s)
  | (some it, s) => (.found none, s.itemUpdate it)

/-- `MDB::Delete(key)`. -/
def delete (key : Key) : Reply × Store :=
  match s.itemGet key with
  | (none, s) => (.no, s)
  | (some it, s) => (.yes, (s.itemUnlink it).itemRemove it)

end Store

/-- `Put` is its allocation. -/
theorem Store.put_eq (s : Store) (started : UInt32) (key : Key) (value : List UInt8) :
    s.put started key value =
      let r := s.itemAlloc key 0 (realTime started s.now (realtimeMaxdelta + 1)) (value.length + 2)
      (if r.1.isSome then .noReturn else .no, r.2) := by
  unfold Store.put
  rcases s.itemAlloc key 0 _ _ with ⟨_ | it, s'⟩ <;> rfl

/-- The calls of a client. -/
inductive Call where
  | put (key : Key) (value : List UInt8)
  | get (key : Key)
  | delete (key : Key)

/-- **One call.** -/
def Store.call (s : Store) (started : UInt32) : Call → Reply × Store
  | .put key value => s.put started key value
  | .get key => s.get key
  | .delete key => s.delete key

/-- The process: `exit(EXIT_FAILURE)` was called, a null table was read, or it is up; `table` says
whether `primary_hashtable_` is not null. -/
inductive Engine where
  | exited
  | crashed
  | up (store : Store) (table : Bool)

/-- `MDB::InitDB()`. `InitAssoc` gives up when its `calloc` has *not* failed; `base` is what the `malloc`
of the slab memory returns. -/
def initDB (hash : Key → UInt32) (env : Env) (base : Option ℕ) : Engine :=
  if env.callocs 0 then .exited
  else .up ((Config.initDB base).store hash { env with callocs := fun n => env.callocs (n + 1) }) false

/-- A call to the process. `Get` and `Delete` start with a read of the hash table; `Put` reads it only
to unlink an item. -/
def Engine.call (started : UInt32) (c : Call) : Engine → Engine
  | .up s false => match c with
    | .put key value => .up (s.put started key value).2 false
    | .get _ | .delete _ => .crashed
  | .up s true => .up (s.call started c).2 true
  | e => e

/-! ## The map -/

/-- What the map `m` answers; of `Put` nothing is asked. -/
def Call.expected (m : Key → Option (List UInt8)) : Call → Option Reply
  | .put _ _ => none
  | .get key => some (if (m key).isSome then .found (m key) else .no)
  | .delete key => some (if (m key).isSome then .yes else .no)

/-- The map after the call; `r` is the reply, which tells whether an item was allocated. -/
def Call.next (m : Key → Option (List UInt8)) (r : Reply) : Call → Key → Option (List UInt8)
  | .put key value => Function.update m key (if r = .no then none else some value)
  | .get _ => m
  | .delete key => Function.update m key none

/-- The key is asked for while the map does not have it. -/
def Call.Absent (m : Key → Option (List UInt8)) : Call → Prop
  | .put _ _ => True
  | .get key | .delete key => m key = none

/-- The store, and the map it is meant to be. -/
structure ApiRun where
  store : Store
  map : Key → Option (List UInt8)

namespace ApiRun

variable (started : UInt32)

/-- A call at time `e.1`. -/
def step (r : ApiRun) (e : UInt32 × Call) : Reply × ApiRun :=
  let a := { r.store with now := e.1 }.call started e.2
  (a.1, ⟨a.2, e.2.next r.map a.1⟩)

/-- Every call is answered as the map answers. -/
def Agrees : ApiRun → List (UInt32 × Call) → Prop
  | _, [] => True
  | r, e :: es => (∀ a, e.2.expected r.map = some a → (r.step started e).1 = a) ∧
      Agrees (r.step started e).2 es

/-- Keys are only asked for while the map does not have them. -/
def AsksAbsent : ApiRun → List (UInt32 × Call) → Prop
  | _, [] => True
  | r, e :: es => e.2.Absent r.map ∧ AsksAbsent (r.step started e).2 es

end ApiRun

/-! ## Nothing is ever linked -/

/-- No item is linked, and at most one reference to each is kept. -/
structure Bare (s : Store) : Prop where
  inv : ∃ v refs, Inv ⟨fun _ => 0, s.trace, .none⟩ s v refs ∧ v.items = [] ∧ ∀ x, refs x ≤ 1
  tailRepairTime : s.settings.tailRepairTime = 0
  lruMaintainerThread : s.settings.lruMaintainerThread = false

namespace Bare

variable {s : Store}

theorem init (base : Option ℕ) (hash : Key → UInt32) (env : Env) :
    Bare ((Config.initDB base).store hash env) :=
  ⟨⟨_, _, (Config.initDB_ok base).inv hash env (fun _ => 0) fun _ => rfl, rfl, fun _ => Nat.zero_le _⟩,
    rfl, rfl⟩

theorem setNow (h : Bare s) (now : UInt32) : Bare { s with now := now } := by
  obtain ⟨⟨v, refs, hv, hi, hle⟩, h2, h3⟩ := h
  exact ⟨⟨v, refs, hv.setNow now, hi, hle⟩, h2, h3⟩

/-- No key is found. -/
theorem itemGet (h : Bare s) (key : Key) : s.itemGet key = (none, s) := by
  obtain ⟨⟨v, refs, hv, hi, -⟩, -, -⟩ := h
  exact hv.doItemGet_none fun x hx => by rw [hi] at hx; cases hx

/-- An allocation links nothing. -/
theorem itemAlloc (h : Bare s) (key : Key) (flags : Int32) (exptime : UInt32) {nbytes : ℕ}
    (hn : 2 ≤ nbytes) : Bare (s.itemAlloc key flags exptime nbytes).2 := by
  obtain ⟨⟨v, refs, hv, hi, hle⟩, hrep, hoff⟩ := h
  have hslack : s.slack 5 = 0 := by rw [Store.slack, hoff]; rfl
  obtain ⟨refs', hlk, hr⟩ := hv.doItemAlloc hrep key flags exptime hn 0 fun x _ => by
    have := hle x
    omega
  rw [hlk.off hoff] at hr
  have hnone : ∀ v' : View, (∀ x ∈ v'.items, x ∈ v.items) → v'.items = [] := fun v' hsub =>
    List.eq_nil_iff_forall_not_mem.mpr fun x hx => by have := hsub x hx; rw [hi] at this; cases this
  unfold Store.itemAlloc
  rcases hr with ⟨s', v', he, h', p⟩ | ⟨it, s', v', he, h', md, -, -⟩
  · rw [he]
    exact ⟨⟨v', refs, h'.rebase fun _ => Nat.zero_le _, hnone v' p.sub, hle⟩,
      by rw [p.data.settings]; exact hrep, by rw [p.data.settings]; exact hoff⟩
  · rw [he]
    refine ⟨⟨v', _, h'.rebase fun _ => Nat.zero_le _, hnone v' md.sub, fun x => ?_⟩,
      by rw [md.globals.settings]; exact hrep, by rw [md.globals.settings]; exact hoff⟩
    by_cases e : x = it
    · rw [e, Function.update_self]
    · rw [Function.update_of_ne e]; exact hle x

/-- **One call**: `Get` and `Delete` find nothing, and nothing is linked. -/
theorem call (h : Bare s) (started : UInt32) (c : Call) : Bare (s.call started c).2 ∧
    ∀ key, c = .get key ∨ c = .delete key → (s.call started c).1 = .no := by
  cases c with
  | put key value =>
    refine ⟨?_, fun k hk => by rcases hk with hk | hk <;> cases hk⟩
    rw [Store.call, Store.put_eq]
    exact h.itemAlloc key 0 _ (Nat.le_add_left _ _)
  | get key =>
    simp only [Store.call, Store.get, h.itemGet key]
    exact ⟨h, fun _ _ => trivial⟩
  | delete key =>
    simp only [Store.call, Store.delete, h.itemGet key]
    exact ⟨h, fun _ _ => trivial⟩

end Bare

/-- A reply that finds nothing is the map's if the map has nothing. -/
theorem Call.expected_no_iff (m : Key → Option (List UInt8)) {c : Call} {key : Key}
    (hc : c = .get key ∨ c = .delete key) :
    (∀ a, c.expected m = some a → Reply.no = a) ↔ c.Absent m := by
  rcases hc with rfl | rfl <;> simp only [Call.expected, Call.Absent, Option.some.injEq,
    forall_eq'] <;> cases m key <;> simp

/-- **Which answers are right**: those that find nothing where there is nothing. -/
theorem ApiRun.agrees_iff (started : UInt32) (es : List (UInt32 × Call)) : ∀ r : ApiRun, Bare r.store →
    (r.Agrees started es ↔ r.AsksAbsent started es) := by
  induction es with
  | nil => exact fun r _ => Iff.rfl
  | cons e es ih =>
    intro r hr
    obtain ⟨hb, hno⟩ := (hr.setNow e.1).call started e.2
    refine and_congr ?_ (ih _ hb)
    cases hc : e.2 with
    | put key value => simp [Call.expected, Call.Absent]
    | get key =>
      have : (r.step started e).1 = .no := hno key (.inl hc)
      rw [this]
      exact Call.expected_no_iff r.map (.inl rfl)
    | delete key =>
      have : (r.step started e).1 = .no := hno key (.inr hc)
      rw [this]
      exact Call.expected_no_iff r.map (.inr rfl)

/-- A key may be asked for after a `Put` only if that has failed. -/
theorem ApiRun.put_of_asksAbsent {started : UInt32} {r : ApiRun} {key : Key} {value : List UInt8}
    {now : UInt32} (h : r.AsksAbsent started [(r.store.now, .put key value), (now, .get key)]) :
    (r.store.put started key value).1 = .no := by
  have hkey : Function.update r.map key
      (if (r.store.put started key value).1 = .no then none else some value) key = none := h.2.1
  by_contra hne
  rw [Function.update_self, if_neg hne] at hkey
  cases hkey

/-- The initialised store with its memory at 4096; every allocation succeeds. -/
def freshDB : Store := (Config.initDB (some 4096)).store (fun _ => 0) .willing

/-- A value of the largest class, whose pages are one chunk. -/
def largeValue : List UInt8 := List.replicate 900000 118

theorem put_largeValue : freshDB.put 0 (.byte 97) largeValue =
    (.noReturn, (freshDB.itemAlloc (.byte 97) 0 2592001 900002).2) := by
  have hlen : largeValue.length + 2 = 900002 := by rw [largeValue, List.length_replicate]
  have hex : realTime 0 freshDB.now (realtimeMaxdelta + 1) = 2592001 := by decide
  have hsome : ((freshDB.itemAlloc (.byte 97) 0 2592001 900002).1).isSome = true := by decide +kernel
  rw [Store.put_eq, hlen, hex]
  dsimp only
  rw [if_pos hsome]

/-- The freelist of class `c`, as it is walked. -/
def Store.freelist (s : Store) (c : ℕ) : List Ptr :=
  walk s.heap.next (s.slabs.slabclass c).slCurr.toNat (s.slabs.slabclass c).slots

/-- **Nothing has leaked**: every chunk handed out is a linked item that only the link refers to, and
every other chunk is on the freelist of its class. -/
structure LeakFree (s : Store) : Prop where
  allocated : ∀ x, IsLive s.trace x → (s.flags x).linked = true ∧ s.heap.refcount x = 1
  others : ∀ c, ∀ x ∈ s.slabs.chunks c, ¬ IsLive s.trace x → x ∈ s.freelist c

/-- A store in order, with nobody holding anything; the maintainer thread and tail repair are off. -/
structure Clean (s : Store) : Prop where
  inv : ∃ v, Inv ⟨fun _ => 0, s.trace, .none⟩ s v fun _ => 0
  tailRepairTime : s.settings.tailRepairTime = 0
  lruMaintainerThread : s.settings.lruMaintainerThread = false

/-- A `Put` that allocates nothing, a `Get` that finds nothing, any `Delete`. -/
def Call.Safe (started : UInt32) (s : Store) : Call → Prop
  | .put key value => (s.put started key value).1 = .no
  | .get key => (s.get key).1 = .no
  | .delete _ => True

instance (started : UInt32) (s : Store) : (c : Call) → Decidable (c.Safe started s)
  | .put _ _ | .get _ => inferInstanceAs (Decidable (_ = Reply.no))
  | .delete _ => .isTrue trivial

namespace Clean

variable {s : Store}

theorem setNow (h : Clean s) (now : UInt32) : Clean { s with now := now } := by
  obtain ⟨v, hv⟩ := h.inv
  exact ⟨⟨v, hv.setNow now⟩, h.tailRepairTime, h.lruMaintainerThread⟩

theorem leakFree (h : Clean s) : LeakFree s := by
  obtain ⟨v, hv⟩ := h.inv
  refine ⟨fun x hx => ?_, fun c x hx hn => ?_⟩
  · obtain ⟨c, hc⟩ := (hv.live x).mp hx
    have hr := (hv.alloc_ok c x hc).refcount
    have hpos := (hv.alloc_ok c x hc).pos
    split_ifs at hr with hl
    · exact ⟨hl, hr⟩
    · omega
  · have hfree : x ∈ v.free c := by
      refine (hv.slabs.mem_chunks.mp hx).resolve_right fun hm => ?_
      exact hn ((hv.live x).mpr ⟨c, by simpa [Base.taken, Moved.none] using hm⟩)
    rw [Store.freelist, hv.slabs.freelists.slots,
      (hv.slabs.freelists.seg c).walk_eq (hv.slabs.slCurr_toNat c).ge]
    exact hfree

/-- A `Get` or `Delete` that finds nothing. -/
theorem of_misses {s' : Store} {v v' : View} {b : Base} {key : Key} (h : Clean s)
    (ms : Inv.Misses b s s' v v' (fun _ => 0) key) (hb : b.moved = .none) : Clean s' := by
  have hinv : Inv ⟨fun _ => 0, s'.trace, b.moved⟩ s' v' fun _ => 0 := ms.inv.rebase fun _ => le_rfl
  rw [hb] at hinv
  exact ⟨⟨v', hinv⟩, by rw [ms.data.settings]; exact h.tailRepairTime,
    by rw [ms.data.settings]; exact h.lruMaintainerThread⟩

/-- **A `Put`** is safe exactly if it allocates nothing: an item it allocates is linked nowhere. -/
theorem put (h : Clean s) (started : UInt32) (key : Key) (value : List UInt8) :
    ((s.put started key value).1 = .no → Clean (s.put started key value).2) ∧
    ((s.put started key value).1 ≠ .no → ¬ LeakFree (s.put started key value).2) := by
  obtain ⟨v, hv⟩ := h.inv
  obtain ⟨refs', hlk, hr⟩ := hv.doItemAlloc h.tailRepairTime key 0
    (realTime started s.now (realtimeMaxdelta + 1)) (Nat.le_add_left 2 value.length) 0 fun x _ => by
      rw [Store.slack]; split_ifs <;> decide
  rw [hlk.off h.lruMaintainerThread] at hr
  rw [Store.put_eq, Store.itemAlloc]
  rcases hr with ⟨s', v', he, h', p⟩ | ⟨it, s', v', he, h', md, -, -⟩
  · rw [he]
    refine ⟨fun _ => ⟨⟨v', h'.rebase fun _ => le_rfl⟩, ?_, ?_⟩, fun hne => absurd rfl hne⟩
    · rw [p.data.settings]; exact h.tailRepairTime
    · rw [p.data.settings]; exact h.lruMaintainerThread
  · rw [he]
    refine ⟨fun e => (by cases e), fun _ hf => md.unlinked ?_⟩
    exact (h'.mem_items md.alloc).mpr (hf.allocated it ((h'.live it).mpr md.alloc)).1

/-- **A `Get`** is safe exactly if it finds nothing: it keeps a reference to what it finds. -/
theorem get (h : Clean s) (key : Key) : ((s.get key).1 = .no → Clean (s.get key).2) ∧
    ((s.get key).1 ≠ .no → ¬ LeakFree (s.get key).2) := by
  obtain ⟨v, hv⟩ := h.inv
  rw [Store.get, Store.itemGet]
  rcases hv.get_cases key fun x _ _ => Nat.zero_le _ with ⟨s', v', he, ms⟩ | ⟨x, s', he, hit⟩
  · rw [he]
    exact ⟨fun _ => h.of_misses ms rfl, fun hne => absurd rfl hne⟩
  · rw [he]
    refine ⟨fun e => (by cases e), fun _ hf => ?_⟩
    have hx := hv.alloc_isChunk (hv.items_alloc x hit.mem)
    obtain ⟨v', h', mv⟩ := hit.inv.doItemUpdate hx
    have hmem : x ∈ v'.items := by rw [mv.items]; exact hit.mem
    have hrc := h'.refcount_item hmem
    rw [Function.update_self] at hrc
    have := (hf.allocated x ((h'.live x).mpr (h'.items_alloc x hmem))).2
    rw [show (s'.itemUpdate x).heap.refcount x = 1 + (0 + 1) from hrc] at this
    cases this

/-- **A `Delete`** gives back all it takes. -/
theorem delete (h : Clean s) (key : Key) : Clean (s.delete key).2 := by
  obtain ⟨v, hv⟩ := h.inv
  rw [Store.delete, Store.itemGet]
  rcases hv.get_cases key fun x _ _ => Nat.zero_le _ with ⟨s', v', he, ms⟩ | ⟨x, s', he, hit⟩
  · rw [he]
    exact h.of_misses ms rfl
  · rw [he]
    obtain ⟨v', h', d⟩ := hit.inv.drop hit.mem le_rfl (Nat.zero_le _)
    refine ⟨⟨v', h'.rebase fun _ => le_rfl⟩, ?_, ?_⟩
    · exact (d.data.settings.trans hit.quiet.data.settings) ▸ h.tailRepairTime
    · exact (d.data.settings.trans hit.quiet.data.settings) ▸ h.lruMaintainerThread

/-- **One call**: it leaks nothing exactly if it is safe. -/
theorem call (h : Clean s) (started : UInt32) (c : Call) :
    (c.Safe started s → Clean (s.call started c).2) ∧
    (LeakFree (s.call started c).2 ↔ c.Safe started s) := by
  cases c with
  | put key value =>
    obtain ⟨h1, h2⟩ := h.put started key value
    exact ⟨h1, fun hf => not_not.mp fun hne => h2 hne hf, fun e => (h1 e).leakFree⟩
  | get key =>
    obtain ⟨h1, h2⟩ := h.get key
    exact ⟨h1, fun hf => not_not.mp fun hne => h2 hne hf, fun e => (h1 e).leakFree⟩
  | delete key =>
    have hd := h.delete key
    exact ⟨fun _ => hd, fun _ => trivial, fun _ => hd.leakFree⟩

end Clean

/-- A safe call, at some time. -/
def CallStep (s s' : Store) : Prop := ∃ started now c, c.Safe started { s with now := now } ∧
  s' = ({ s with now := now }.call started c).2

/-- The small store with one stored item, which nobody holds any more. -/
def oneLinked : World := smallWorld.run
  [.alloc (.byte 97) 0 0 3 0, .store (.chunk 4192) .set, .remove (.chunk 4192)]

theorem oneLinked_clean : Clean oneLinked.store := by
  have h0 : smallWorld.Balanced := .init ⟨smallConfig, fun _ => 0, .willing, smallConfig_ok, rfl⟩
  have h1 := h0.exec (.alloc (.byte 97) 0 0 3 0) trivial (by decide) (smallWorld_few [] (by decide))
  have h2 := h1.exec (.store (.chunk 4192) .set) trivial (by decide)
    (smallWorld_few [.alloc (.byte 97) 0 0 3 0] (by decide))
  have h3 : oneLinked.Balanced := h2.exec (.remove (.chunk 4192)) trivial (by decide)
    (smallWorld_few [.alloc (.byte 97) 0 0 3 0, .store (.chunk 4192) .set] (by decide))
  obtain ⟨v, hv⟩ := h3.tracked.inv
  have htr : oneLinked.store.trace = [.alloc (.chunk 4192)] := by decide
  have hheld : oneLinked.held = fun _ => 0 := by
    funext x
    by_cases e : x = .chunk 4192
    · rw [e]; decide
    · refine hv.refs_zero x fun ha => e ?_
      have hl := (hv.live x).mpr ha
      rw [htr] at hl
      exact hl.resolve_right fun hf => hf
  rw [hheld] at hv
  exact ⟨⟨v, hv⟩, by decide, by decide⟩

end Mdb
