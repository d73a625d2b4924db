import Mdb.Item
import Mdb.Lib.Run

/-!
# The timed map

What the store is for, without chains, queues or counters: a map from keys to entries, in which an
entry whose time has come counts as absent. Keys are of any type `K`. An entry also has the name of
the item that carries it, of any type `H`: the client deletes by item, not by key.

* `Entry`, `Entry.Expired`; `TimedMap`, `TimedMap.live`;
* `storeStatus`, `storeEntry`: what a store request is answered, and what it leaves behind;
* `TimedMap.Event`, `TimedMap.Step`: the requests with their answers. The map may lose entries when an
  item is allocated; in `APPEND` and `PREPEND` never the entry asked for;
* `TimedMap.NoLostUpdate`, **`TimedMap.noLostUpdate`**: a `CAS` that succeeds has seen the last store.
-/

namespace Mdb

open Run

/-- What the map has for a key. -/
structure Entry (H : Type) where
  item : H
  value : List UInt8
  flags : Int32
  exptime : UInt32
  cas : UInt64
  deriving DecidableEq

/-- The entry counts as absent at time `now`. -/
def Entry.Expired {H : Type} (e : Entry H) (now : UInt32) : Prop := e.exptime ≠ 0 ∧ e.exptime ≤ now

instance {H : Type} (e : Entry H) (now : UInt32) : Decidable (e.Expired now) :=
  inferInstanceAs (Decidable (_ ∧ _))

/-- **The map**, the clock, and the last CAS id given out. -/
structure TimedMap (K H : Type) where
  entries : K → Option (Entry H)
  now : UInt32
  casId : ℕ

section

variable {K H : Type}

/-- The answer to a store request for a key with the live entry `old`, carrying the CAS id `cas`. -/
def storeStatus (op : NreadOpType) (old : Option (Entry H)) (cas : UInt64) : StoreItemType :=
  match op, old with
  | .add, some _ => .notStored
  | .replace, none | .append, none | .prepend, none => .notStored
  | .cas, none => .notFound
  | .cas, some e => if cas = e.cas then .stored else .existing
  | .append, some e | .prepend, some e => if cas ≠ 0 ∧ cas ≠ e.cas then .existing else .stored
  | .add, none | .set, _ | .replace, some _ => .stored

/-- Values end with two bytes `\r\n`, of which a joined value has one pair. -/
def joinValue (op : NreadOpType) (old new : List UInt8) : List UInt8 :=
  if op = .append then old.take (old.length - 2) ++ new else new.take (new.length - 2) ++ old

/-- What a store request with the entry `new` leaves for a key with the live entry `old`. A joined
value is carried by an item of its own, `item`. -/
def storeEntry (op : NreadOpType) (old : Option (Entry H)) (new : Entry H) (item : H)
    (cas : UInt64) : Entry H :=
  match op, old with
  | .append, some e | .prepend, some e =>
    ⟨item, joinValue op e.value new.value, e.flags, e.exptime, cas⟩
  | _, _ => { new with cas := cas }

theorem storeEntry_cas (op : NreadOpType) (old : Option (Entry H)) (new : Entry H) (item : H)
    (cas : UInt64) : (storeEntry op old new item cas).cas = cas := by
  unfold storeEntry
  split <;> rfl

/-- `APPEND` and `PREPEND` allocate. -/
def NreadOpType.Joins (op : NreadOpType) : Prop := op = .append ∨ op = .prepend

instance (op : NreadOpType) : Decidable op.Joins := inferInstanceAs (Decidable (_ ∨ _))

end

namespace TimedMap

section

variable {K H : Type} (m : TimedMap K H)

/-- The empty map. -/
def empty (now : UInt32) : TimedMap K H := ⟨fun _ => none, now, 0⟩

/-- The entry a reader finds. -/
def live (key : K) : Option (Entry H) := (m.entries key).filter fun e => ¬ e.Expired m.now

/-- The keys in `gone` are dropped. -/
def evict (gone : K → Bool) : TimedMap K H :=
  { m with entries := fun key => if gone key then none else m.entries key }

variable {m} in
theorem entries_of_live {key : K} {e : Entry H} (h : m.live key = some e) :
    m.entries key = some e := (Option.filter_eq_some_iff.mp h).1

variable {m} in
theorem entries_of_evict {gone : K → Bool} {key : K} {e : Entry H}
    (h : (m.evict gone).entries key = some e) : m.entries key = some e := by
  simp only [evict] at h
  split_ifs at h
  exact h

variable [DecidableEq K]

/-- `key` gets the entry `e`, which bears the next CAS id. -/
def put (key : K) (e : Entry H) : TimedMap K H :=
  { m with entries := Function.update m.entries key (some e), casId := m.casId + 1 }

/-- A live entry gets a new expiry. -/
def touch (key : K) (exptime : UInt32) : TimedMap K H :=
  match m.live key with
  | none => m
  | some e => { m with entries := Function.update m.entries key (some { e with exptime := exptime }) }

variable {m} in
theorem touch_entries {key key' : K} {exptime : UInt32} {e' : Entry H}
    (h : (m.touch key exptime).entries key' = some e') :
    ∃ e, m.entries key' = some e ∧ e'.cas = e.cas := by
  unfold TimedMap.touch at h
  cases hl : m.live key with
  | none => rw [hl] at h; exact ⟨e', h, rfl⟩
  | some e =>
    rw [hl] at h
    by_cases hk : key' = key
    · subst hk
      simp only [Function.update_self, Option.some.injEq] at h
      exact ⟨e, entries_of_live hl, by rw [← h]⟩
    · simp only [Function.update_of_ne hk] at h
      exact ⟨e', h, rfl⟩

variable [DecidableEq H]

/-- The live entry carried by `item`, if any, is dropped. -/
def unlink (item : H) : TimedMap K H :=
  { m with entries := fun key =>
      if (m.live key).map Entry.item = some item then none else m.entries key }

/-- The requests, with their answers. -/
inductive Event (K H : Type) where
  | store (op : NreadOpType) (key : K) (new : Entry H) (status : StoreItemType)
  | get (key : K) (result : Option (Entry H))
  | touch (key : K) (exptime : UInt32) (result : Option (Entry H))
  | unlink (item : H)
  | tick (now : UInt32)
  /-- An item is allocated. -/
  | alloc
  /-- Nothing a reader asks for: items are filled in, moved and released. -/
  | silent

/-- **The requests of the map.** -/
inductive Step : TimedMap K H → Event K H → TimedMap K H → Prop where
  | stored (m : TimedMap K H) (op : NreadOpType) (key : K) (new : Entry H) (item : H)
      (gone : K → Bool) (h : storeStatus op (m.live key) new.cas = .stored)
      (hkey : gone key = false) (hgone : ∀ k, gone k = true → op.Joins) :
      Step m (.store op key new .stored)
        ((m.evict gone).put key
          (storeEntry op (m.live key) new item (UInt64.ofNat (m.casId + 1))))
  | refused (m : TimedMap K H) (op : NreadOpType) (key : K) (new : Entry H)
      (h : storeStatus op (m.live key) new.cas ≠ .stored) :
      Step m (.store op key new (storeStatus op (m.live key) new.cas)) m
  /-- There was no memory for the joined value. -/
  | failed (m : TimedMap K H) (op : NreadOpType) (key : K) (new : Entry H) (gone : K → Bool)
      (h : storeStatus op (m.live key) new.cas = .stored) (hop : op.Joins)
      (hkey : gone key = false) : Step m (.store op key new .notStored) (m.evict gone)
  | get (m : TimedMap K H) (key : K) : Step m (.get key (m.live key)) m
  | touch (m : TimedMap K H) (key : K) (exptime : UInt32) :
      Step m (.touch key exptime ((m.live key).map fun e => { e with exptime := exptime }))
        (m.touch key exptime)
  | unlink (m : TimedMap K H) (item : H) : Step m (.unlink item) (m.unlink item)
  | tick (m : TimedMap K H) (now : UInt32) (h : m.now ≤ now) :
      Step m (.tick now) { m with now := now }
  | alloc (m : TimedMap K H) (gone : K → Bool) : Step m .alloc (m.evict gone)
  | silent (m : TimedMap K H) : Step m .silent m

end

/-! ## CAS ids -/

variable {K H : Type} {m : TimedMap K H}

/-- A read of `key` that returned the CAS id `c`. -/
def Event.Reads (key : K) (c : UInt64) (ev : Event K H) : Prop :=
  ∃ e : Entry H, ev = .get key (some e) ∧ e.cas = c

/-- A store request for `key` that succeeded. -/
def Event.Stores (key : K) (ev : Event K H) : Prop := ∃ op new, ev = .store op key new .stored

/-- A `CAS` request for `key` with the id `c` that succeeded. -/
def Event.CasStores (key : K) (c : UInt64) (ev : Event K H) : Prop :=
  ∃ new : Entry H, ev = .store .cas key new .stored ∧ new.cas = c

theorem Event.CasStores.stores {ev : Event K H} {key : K} {c : UInt64} (h : ev.CasStores key c) :
    ev.Stores key := by
  obtain ⟨new, e, -⟩ := h
  exact ⟨.cas, new, e⟩

/-- **No update is lost**: of the `CAS` requests with one id for one key, one succeeds at most; and
none does if the key was stored to since the id was read. -/
structure NoLostUpdate (evs : List (Event K H)) : Prop where
  once : ∀ key c as bs cs ev ev', evs = as ++ ev :: (bs ++ ev' :: cs) → ev.CasStores key c →
    ¬ ev'.CasStores key c
  fresh : ∀ key c as bs cs ev ev', evs = as ++ ev :: (bs ++ ev' :: cs) → ev.Reads key c →
    ev'.CasStores key c → ∀ e ∈ bs, ¬ e.Stores key

/-- The id `n` has been given out, and the entry for `key`, if any, bears another. -/
structure Gone (m : TimedMap K H) (key : K) (n : ℕ) : Prop where
  le : n ≤ m.casId
  ne : ∀ e, m.entries key = some e → e.cas ≠ UInt64.ofNat n

/-- Every entry bears an id that has been given out. -/
def Numbered (m : TimedMap K H) : Prop :=
  ∀ key e, m.entries key = some e → ∃ n, n ≤ m.casId ∧ e.cas = UInt64.ofNat n

/-- **Ids come from the counter.** After a request, an entry bears the id it had, and its key was not
stored to; or it bears the next id. -/
structure Ids (m : TimedMap K H) (ev : Event K H) (m' : TimedMap K H) : Prop where
  le : m.casId ≤ m'.casId
  entry : ∀ key e', m'.entries key = some e' →
    (∃ e, m.entries key = some e ∧ e'.cas = e.cas ∧ ¬ ev.Stores key) ∨
      m'.casId = m.casId + 1 ∧ e'.cas = UInt64.ofNat (m.casId + 1)

/-- A request that stores nothing. -/
theorem Ids.of_old {m' : TimedMap K H} {ev : Event K H} (hid : m'.casId = m.casId)
    (hold : ∀ key e', m'.entries key = some e' → ∃ e, m.entries key = some e ∧ e'.cas = e.cas)
    (hns : ∀ op key new, ev ≠ .store op key new .stored) : Ids m ev m' where
  le := hid.ge
  entry key e' he := by
    obtain ⟨e, he, hc⟩ := hold key e' he
    exact .inl ⟨e, he, hc, fun ⟨op, new, e⟩ => hns op key new e⟩

variable [DecidableEq K] [DecidableEq H]

theorem Step.ids {m' : TimedMap K H} {ev : Event K H} (h : Step m ev m') : Ids m ev m' := by
  cases h with
  | stored op key new item gone hst hkey hgone =>
    refine ⟨Nat.le_succ _, fun k e' he => ?_⟩
    by_cases hk : k = key
    · subst hk
      simp only [put, Function.update_self, Option.some.injEq] at he
      exact .inr ⟨rfl, by rw [← he, storeEntry_cas]⟩
    · simp only [put, Function.update_of_ne hk] at he
      refine .inl ⟨e', entries_of_evict he, rfl, ?_⟩
      rintro ⟨op', new', e⟩
      exact hk (Event.store.inj e).2.1.symm
  | refused op key new hst =>
    exact .of_old rfl (fun _ e' he => ⟨e', he, rfl⟩) fun _ _ _ e => hst (Event.store.inj e).2.2.2
  | failed op key new gone hst hop hkey =>
    exact .of_old rfl (fun _ e' he => ⟨e', entries_of_evict he, rfl⟩) fun _ _ _ e => by
      cases (Event.store.inj e).2.2.2
  | touch key exptime =>
    refine .of_old ?_ (fun _ e' he => touch_entries he) fun _ _ _ e => by cases e
    unfold TimedMap.touch
    split <;> rfl
  | unlink item =>
    refine .of_old rfl (fun _ e' he => ⟨e', ?_, rfl⟩) fun _ _ _ e => by cases e
    simp only [TimedMap.unlink] at he
    split_ifs at he
    exact he
  | alloc gone =>
    exact .of_old rfl (fun _ e' he => ⟨e', entries_of_evict he, rfl⟩) fun _ _ _ e => by cases e
  | get | tick | silent =>
    exact .of_old rfl (fun _ e' he => ⟨e', he, rfl⟩) fun _ _ _ e => by cases e

theorem Numbered.step {m' : TimedMap K H} {ev : Event K H} (h : m.Numbered) (hs : Step m ev m') :
    m'.Numbered := fun key e' he => by
  have hle := hs.ids.le
  rcases hs.ids.entry key e' he with ⟨e, he, hc, -⟩ | ⟨hid, hc⟩
  · obtain ⟨n, hn, hc'⟩ := h key e he
    exact ⟨n, hn.trans hle, hc.trans hc'⟩
  · exact ⟨m.casId + 1, hid.ge, hc⟩

/-- A different number below `2 ^ 64` is a different id. -/
theorem ofNat_ne {n k : ℕ} (h : n < k) (hk : k < 2 ^ 64) : UInt64.ofNat k ≠ UInt64.ofNat n := fun e => by
  have := congrArg UInt64.toNat e
  rw [UInt64.toNat_ofNat_of_lt' hk, UInt64.toNat_ofNat_of_lt' (h.trans hk)] at this
  omega

/-- What is gone stays gone. -/
theorem Gone.step {m' : TimedMap K H} {ev : Event K H} {key : K} {n : ℕ} (h : m.Gone key n)
    (hs : Step m ev m') (hid : m'.casId < 2 ^ 64) : m'.Gone key n where
  le := h.le.trans hs.ids.le
  ne e' he := by
    rcases hs.ids.entry key e' he with ⟨e, he, hc, -⟩ | ⟨hi, hc⟩
    · rw [hc]; exact h.ne e he
    · rw [hc]
      exact ofNat_ne (Nat.lt_succ_of_le h.le) (hi ▸ hid)

/-- A store to the key replaces the id. -/
theorem Step.gone {m' : TimedMap K H} {ev : Event K H} {key : K} {n : ℕ} (hs : Step m ev m')
    (hev : ev.Stores key) (hn : n ≤ m.casId) (hid : m'.casId < 2 ^ 64) : m'.Gone key n where
  le := hn.trans hs.ids.le
  ne e' he := by
    rcases hs.ids.entry key e' he with ⟨e, -, -, hns⟩ | ⟨hi, hc⟩
    · exact absurd hev hns
    · rw [hc]
      exact ofNat_ne (Nat.lt_succ_of_le hn) (hi ▸ hid)

theorem steps_casId_le {m' : TimedMap K H} {evs : List (Event K H)} (h : Steps Step m evs m') :
    m.casId ≤ m'.casId :=
  h.invariant (I := fun t => m.casId ≤ t.casId) le_rfl fun _ _ _ hle hs => hle.trans hs.ids.le

theorem Numbered.steps {m' : TimedMap K H} {evs : List (Event K H)} (h : m.Numbered)
    (hr : Steps Step m evs m') : m'.Numbered :=
  hr.invariant h fun _ _ _ ht hs => ht.step hs

/-- After a store to the key, an id given out before is gone for good. -/
theorem gone_of_stores {m' : TimedMap K H} {key : K} {n : ℕ} {bs cs : List (Event K H)}
    {ev : Event K H} (h : Steps Step m (bs ++ ev :: cs) m') (hev : ev.Stores key)
    (hn : n ≤ m.casId) (hid : m'.casId < 2 ^ 64) : m'.Gone key n := by
  obtain ⟨m₁, h₁, h₂⟩ := h.split
  cases h₂ with
  | head hs hr =>
    rename_i m₂
    have h2 : m₂.casId < 2 ^ 64 → m₂.Gone key n := hs.gone hev (hn.trans (steps_casId_le h₁))
    refine hr.invariant (I := fun t => t.casId < 2 ^ 64 → t.Gone key n) h2 (fun t _ t' ht hs hid => ?_)
      hid
    exact (ht (hs.ids.le.trans_lt hid)).step hs hid

/-- A `CAS` that succeeds finds its id. -/
theorem Step.casStores {m' : TimedMap K H} {ev : Event K H} {key : K} {c : UInt64}
    (hs : Step m ev m') (hev : ev.CasStores key c) : ∃ e, m.entries key = some e ∧ e.cas = c := by
  obtain ⟨new, hev, rfl⟩ := hev
  have hst : storeStatus .cas (m.live key) new.cas = .stored := by
    cases hs with
    | stored op _ _ item gone hst => cases hev; exact hst
    | refused op _ _ hst =>
      obtain ⟨rfl, rfl, rfl, e⟩ := Event.store.inj hev
      exact e
    | failed op _ _ gone hst hop => cases (Event.store.inj hev).2.2.2
    | _ => cases hev
  cases hl : m.live key with
  | none => rw [hl] at hst; cases hst
  | some e =>
    rw [hl] at hst
    simp only [storeStatus] at hst
    split_ifs at hst with hc
    exact ⟨e, entries_of_live hl, hc.symm⟩

/-- So does a read. -/
theorem Step.reads {m' : TimedMap K H} {ev : Event K H} {key : K} {c : UInt64}
    (hs : Step m ev m') (hev : ev.Reads key c) : ∃ e, m.entries key = some e ∧ e.cas = c := by
  obtain ⟨e, hev, rfl⟩ := hev
  cases hs with
  | get key' =>
    obtain ⟨rfl, hl⟩ := Event.get.inj hev
    exact ⟨e, entries_of_live hl, rfl⟩
  | _ => cases hev

/-- If the id that `ev` finds is carried by a later `CAS` that succeeds, the key is stored to neither
by `ev` nor in between. -/
theorem not_stores_between {m' : TimedMap K H} {key : K} {c : UInt64} {bs cs ds es : List (Event K H)}
    {ev ev' e : Event K H} (hm : m.Numbered) (h : Steps Step m (ev :: (bs ++ ev' :: cs)) m')
    (hid : m'.casId < 2 ^ 64) (hev : ev.CasStores key c ∨ ev.Reads key c)
    (hev' : ev'.CasStores key c) (hsplit : ev :: bs = ds ++ e :: es) : ¬ e.Stores key := fun hst => by
  rw [← List.cons_append] at h
  obtain ⟨m₁, h₁, h₂⟩ := h.split
  obtain ⟨x, hx, rfl⟩ : ∃ x, m.entries key = some x ∧ x.cas = c := by
    cases h₁ with
    | head hs _ => exact hev.elim hs.casStores hs.reads
  obtain ⟨n, hn, hc⟩ := hm key x hx
  cases h₂ with
  | head hs hr =>
    have hid₁ : m₁.casId < 2 ^ 64 := (hs.ids.le.trans (steps_casId_le hr)).trans_lt hid
    rw [hsplit] at h₁
    obtain ⟨y, hy, hyc⟩ := hs.casStores hev'
    exact (gone_of_stores h₁ hst hn hid₁).ne y hy (hyc.trans hc)

/-- **No update is lost** in a run of the timed map, as long as the ids have not wrapped. -/
theorem noLostUpdate {now : UInt32} {evs : List (Event K H)} {m : TimedMap K H}
    (h : Steps Step (.empty now) evs m) (hid : m.casId < 2 ^ 64) : NoLostUpdate evs := by
  have h0 : Numbered (empty now : TimedMap K H) := fun _ _ he => by cases he
  constructor
  · rintro key c as bs cs ev ev' rfl h1 h2
    obtain ⟨m₁, h₁, h₂⟩ := h.split
    exact not_stores_between (h0.steps h₁) h₂ hid (.inl h1) h2 (List.nil_append _).symm
      h1.stores
  · rintro key c as bs cs ev ev' rfl h1 h2 e hm
    obtain ⟨ds, es, rfl⟩ := List.append_of_mem hm
    obtain ⟨m₁, h₁, h₂⟩ := h.split
    exact not_stores_between (h0.steps h₁) h₂ hid (.inr h1) h2 (List.cons_append ..).symm

end TimedMap

end Mdb
