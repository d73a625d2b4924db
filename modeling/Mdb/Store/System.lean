import Mdb.LossyMap
import Mdb.Store.Background

/-!
# The store among its threads

Clients, and in between the walks over the queues with their evictions, the crawler, the migration of
the hash table, the maintainer's start and stop, and flushes. Whatever the clients are answered, the map
that forgets answers too.

* `Op.InBackground`: the operations that are not a client's;
* `SystemStep`: one operation, of clients or of the background; `SparseStep`: the same while references
  are few;
* `Covers r m`: what the hash table has, the map `m` has;
* **`system_refines_lossyMap`**: every run of the system is a run of the map that forgets;
* **`system_truthful`**, **`system_noLostUpdate`**: what clients can rely on in every run.
-/

namespace Mdb

open Run TimedMap

/-- The operations of the maintainer, the crawler and the expansion threads, and a flush. -/
def Op.InBackground : Op → Prop
  | .pull _ _ _ _ _ | .migrate | .flush _ _ | .maintainer _ | .crawlStart _ _ | .crawlStep _ => True
  | _ => False

/-- **One operation of the system.** No client sees the background work. -/
inductive SystemStep : Client → Event Key Ptr → Client → Prop where
  | client {r r' : Client} {ev : Event Key Ptr} (h : ClientStep r ev r') : SystemStep r ev r'
  | background (r : Client) (op : Op) (hb : op.InBackground) (hok : op.Ok r.world) :
      SystemStep r .silent ⟨(r.world.exec op).2, r.draft⟩

/-- One operation while every allocated item has few references. -/
def SparseStep (r : Client) (ev : Event Key Ptr) (r' : Client) : Prop :=
  r.world.store.Sparse ∧ SystemStep r ev r'

/-- **The map `m` covers the store**: it has what the hash table has, and perhaps more. -/
structure Covers (r : Client) (m : TimedMap Key Ptr) : Prop where
  tracked : ∃ refs, r.world.Tracked refs
  now : m.now = r.world.store.now
  casId : m.casId = r.world.store.casId
  entries : ∀ k e, r.world.store.lookup k = some e → m.entries k = some e
  draft : ∀ it d, r.draft it = some d → DraftOk r.world it d

/-! ## Lookups -/

section

variable {b b' : Base} {s s' : Store} {v v' : View} {refs refs' : Ptr → ℕ} {k : Key} {e : Entry Ptr}

/-- Where items are only lost, what is found was there. -/
theorem Inv.lookup_le (h : Inv b s v refs) (h' : Inv b' s' v' refs')
    (hs : ∀ x ∈ v'.items, s.heap.SameItem s'.heap x) (sub : ∀ x ∈ v'.items, x ∈ v.items)
    (hl : s'.lookup k = some e) : s.lookup k = some e := by
  rcases h'.key_cases k with ⟨x, hx, hk⟩ | hn
  · rw [h'.lookup_mem hx hk, (hs x hx).entry] at hl
    rw [h.lookup_mem (sub x hx) (by rw [← (hs x hx).key]; exact hk), hl]
  · rw [h'.lookup_none hn] at hl; cases hl

/-- What is found is carried by a linked item. -/
theorem Inv.lookup_item (h : Inv b s v refs) (hl : s.lookup k = some e) : e.item ∈ v.items := by
  rcases h.key_cases k with ⟨x, hx, hk⟩ | hn
  · rw [h.lookup_mem hx hk, Option.some.injEq] at hl
    rw [← hl]; exact hx
  · rw [h.lookup_none hn] at hl; cases hl

/-- A reader finds what the table has, and it has not expired. -/
theorem Inv.reads_some (h : Inv b s v refs) (hr : s.reads k = some e) :
    s.lookup k = some e ∧ ¬ e.Expired s.now := by
  rcases h.key_cases k with ⟨x, hx, hk⟩ | hn
  · by_cases hd : s.isDead x
    · rw [h.reads_dead hx hk hd] at hr; cases hr
    · rw [h.reads_hit hx hk hd, Option.some.injEq] at hr
      subst hr
      exact ⟨h.lookup_mem hx hk, fun he => hd (.inr he)⟩
  · rw [h.reads_none hn] at hr; cases hr

end

/-- The key, if a reader finds nothing for it: the map forgets what it has there. -/
def Store.missed (s : Store) (key k : Key) : Bool := decide (k = key) && (s.reads key).isNone

theorem missed_self (s : Store) (key : Key) : s.missed key key = (s.reads key).isNone := by
  simp [Store.missed]

theorem missed_of_ne (s : Store) {key k : Key} (h : k ≠ key) : s.missed key k = false := by
  simp [Store.missed, h]

theorem evict_false (m : TimedMap Key Ptr) : (m.evict fun _ => false) = m := rfl

/-! ## The simulation -/

variable {r : Client} {m : TimedMap Key Ptr}

theorem World.Tracked.slack_bound {w : World} {refs : Ptr → ℕ} (h : w.Tracked refs)
    (hs : w.store.Sparse) (x : Ptr) : refs x + w.store.slack 5 ≤ 65534 := by
  have h1 := h.bound hs x
  have h2 := slack_le w.store
  omega

theorem World.Tracked.le_bound {w : World} {refs : Ptr → ℕ} (h : w.Tracked refs)
    (hs : w.store.Sparse) (x : Ptr) : refs x ≤ 65534 := (h.bound hs x).trans (by decide)

theorem World.Tracked.next {w : World} {refs : Ptr → ℕ} (h : w.Tracked refs) (hs : w.store.Sparse)
    (op : Op) (hok : op.Ok w) : ∃ refs', (w.exec op).2.Tracked refs' := by
  obtain ⟨refs', h', -⟩ := h.exec hok (h.slack_bound hs)
  exact ⟨refs', h'⟩

/-- A draft stays as it is where its item does, and nothing is linked. -/
theorem DraftOk.stays {w w' : World} {x : Ptr} {d : Draft} {b b' : Base} {v v' : View}
    {refs refs' : Ptr → ℕ} (ok : DraftOk w x d) (h : Inv b w.store v refs)
    (h' : Inv b' w'.store v' refs') (hs : w.store.heap.SameItem w'.store.heap x)
    (hi : x ∈ v'.items → x ∈ v.items) (hle : w.held x ≤ refs x) (hh : 1 ≤ w'.held x)
    (hr : 1 ≤ refs' x) : DraftOk w' x d := by
  refine ok.keep hs ?_ hh
  rw [h'.unlinked_iff hr]
  exact fun hx => (h.unlinked_iff (ok.held.trans hle)).mp ok.unlinked (hi hx)

/-- **Items are only lost.** -/
theorem Covers.loses (h : Covers r m) {w' : World} {draft : Ptr → Option Draft} {b b' : Base}
    {v v' : View} {refs refs' : Ptr → ℕ} (ht : ∃ refs', w'.Tracked refs')
    (hv : Inv b r.world.store v refs) (hle : ∀ x, r.world.held x ≤ refs x)
    (h' : Inv b' w'.store v' refs')
    (hs : ∀ x, x ∈ v'.items ∨ 1 ≤ r.world.held x → r.world.store.heap.SameItem w'.store.heap x)
    (sub : ∀ x ∈ v'.items, x ∈ v.items) (hnow : w'.store.now = r.world.store.now)
    (hcas : w'.store.casId = r.world.store.casId)
    (hdr : ∀ it d, draft it = some d → r.draft it = some d ∧ 1 ≤ w'.held it ∧ 1 ≤ refs' it) :
    Covers ⟨w', draft⟩ m where
  tracked := ht
  now := h.now.trans hnow.symm
  casId := h.casId.trans hcas.symm
  entries k e hl := h.entries k e (hv.lookup_le h' (fun x hx => hs x (.inl hx)) sub hl)
  draft it d e := by
    obtain ⟨e, hh, hr⟩ := hdr it d e
    have ok := h.draft it d e
    exact ok.stays hv h' (hs it (.inr ok.held)) (sub it) (hle it) hh hr

/-- The same for an operation that writes no item and keeps the references the clients have. -/
theorem Covers.tidied (h : Covers r m) {s' : Store} {b b' : Base} {v v' : View} {refs refs' : Ptr → ℕ}
    (ht : ∃ refs', World.Tracked { r.world with store := s' } refs') (hv : Inv b r.world.store v refs)
    (hle : ∀ x, r.world.held x ≤ refs x) (h' : Inv b' s' v' refs') (hd : SameData r.world.store s')
    (sub : ∀ x ∈ v'.items, x ∈ v.items) (hge : ∀ x, refs x ≤ refs' x) :
    Covers ⟨{ r.world with store := s' }, r.draft⟩ m :=
  h.loses ht hv hle h' (fun x _ => hd.sameItem x) sub hd.now hd.casId fun it d e =>
    ⟨e, (h.draft it d e).held, (h.draft it d e).held.trans ((hle it).trans (hge it))⟩

/-- What is forgotten because a reader does not find it was not found. -/
theorem Covers.live_missed (h : Covers r m) (key : Key) :
    (m.evict (r.world.store.missed key)).live key = r.world.store.reads key := by
  obtain ⟨refs, ht⟩ := h.tracked
  obtain ⟨v, hv⟩ := ht.inv
  rw [live_evict, missed_self]
  cases hr : r.world.store.reads key with
  | none => rfl
  | some e =>
    obtain ⟨hl, hx⟩ := hv.reads_some hr
    rw [← h.now] at hx
    rw [if_neg nofun, TimedMap.live, h.entries key e hl, Option.filter_some,
      if_pos (by simpa using hx)]

theorem Covers.entries_missed (h : Covers r m) {key k : Key} {e : Entry Ptr}
    (hl : r.world.store.lookup k = some e) (hk : k ≠ key ∨ r.world.store.reads key = some e) :
    (m.evict (r.world.store.missed key)).entries k = some e := by
  have hm : r.world.store.missed key k = false := by
    rcases hk with hk | hr
    · exact missed_of_ne _ hk
    · simp [Store.missed, hr]
  simp only [TimedMap.evict, hm]
  exact h.entries k e hl

theorem Covers.alloc (h : Covers r m) {key : Key} {flags : Int32} {exptime : UInt32} {nbytes : ℕ}
    {curHv : UInt32} {it : Option Ptr} {w : World} (hn : 2 ≤ nbytes) (hs : r.world.store.Sparse)
    (he : r.world.exec (.alloc key flags exptime nbytes curHv) = (.item it, w)) :
    Covers ⟨w, r.drafts it ⟨key, flags, exptime, nbytes, none⟩⟩ m := by
  obtain ⟨refs, ht⟩ := h.tracked
  have hx := ht.next hs (.alloc key flags exptime nbytes curHv) hn
  rw [he] at hx
  obtain ⟨v, hv⟩ := ht.start (.alloc key flags exptime nbytes curHv)
  obtain ⟨refs', lk, hr⟩ := hv.doItemAlloc ht.settings.tailRepairTime key flags exptime hn curHv
    fun x _ => ht.slack_bound hs x
  rcases hr with ⟨s', v', ha, h', p⟩ | ⟨n, s', v', ha, h', md, hr, hd⟩
  · simp only [World.exec, ha, World.give, Prod.mk.injEq, Answer.item.injEq] at he
    obtain ⟨rfl, rfl⟩ := he
    exact h.tidied hx hv ht.held_le h' p.data p.sub lk.ge
  · simp only [World.exec, ha, World.give, Prod.mk.injEq, Answer.item.injEq] at he
    obtain ⟨rfl, rfl⟩ := he
    have hne : ∀ x, 1 ≤ r.world.held x → x ≠ n := by
      rintro x hx rfl
      have := ht.held_le x
      have := lk.ge x
      omega
    have hrefs : ∀ x, 1 ≤ r.world.held x → 1 ≤ Function.update refs' n 1 x := fun x hx => by
      rw [Function.update_of_ne (hne x hx)]
      exact hx.trans ((ht.held_le x).trans (lk.ge x))
    have hold : Covers ⟨⟨s', Function.update r.world.held n (r.world.held n + 1)⟩, r.draft⟩ m := by
      refine h.loses hx hv ht.held_le h' (fun x hx => ?_) md.sub md.globals.now md.casId
        fun it d e => ⟨e, (h.draft it d e).held.trans (le_update r.world.held n it),
          hrefs it (h.draft it d e).held⟩
      rcases hx with hx | hx
      · exact md.same x (ne_of_mem_of_not_mem hx md.unlinked) (h'.items_alloc x hx)
      · exact md.same x (hne x hx) (h'.alloc_of_refs (hrefs x hx))
    refine ⟨hx, hold.now, hold.casId, hold.entries, fun it d e => ?_⟩
    by_cases e' : it = n
    · subst e'
      obtain rfl : ⟨key, flags, exptime, nbytes, none⟩ = d := by simpa [Client.drafts] using e
      refine ⟨?_, ?_, hd.key, hd.nbytes, fun _ _ e => (by cases e), ?_, hd.exptime⟩
      · show 1 ≤ Function.update r.world.held it (r.world.held it + 1) it
        rw [Function.update_self]; omega
      · exact (h'.unlinked_iff (by rw [Function.update_self])).mpr md.unlinked
      · show Int32.ofInt (strtol (s'.heap.suffix it)) = flags
        rw [hd.suffix, strtol_itemSuffix]
    · exact hold.draft it d (by simpa [Client.drafts, e'] using e)

theorem Covers.fill (h : Covers r m) {it : Ptr} {d : Draft} {value : List UInt8} {cas : UInt64}
    (hd : r.draft it = some d) (hlen : value.length = d.nbytes) (hs : r.world.store.Sparse) :
    Covers ⟨(r.world.exec (.fill it (fun i => value.getD i 0) cas)).2,
      Function.update r.draft it (some { d with body := some (value, cas) })⟩ m := by
  have ok := h.draft it d hd
  obtain ⟨refs, ht⟩ := h.tracked
  have hx := ht.next hs (.fill it (fun i => value.getD i 0) cas) ⟨ok.held, ok.unlinked⟩
  obtain ⟨v, hv⟩ := ht.start (.fill it (fun i => value.getD i 0) cas)
  have hrefs := ok.held.trans (ht.held_le it)
  have hcb : (r.world.store.heap.itFlags it).cas = true := by
    rw [hv.casBit it (hv.alloc_of_refs hrefs), ht.settings.useCas]
  have h' := (hv.setData it fun i => value.getD i 0).setCas it cas
  -- the CAS bit is set, so the CAS field is written
  have he : (r.world.exec (.fill it (fun i => value.getD i 0) cas)).2 =
      { r.world with store := { r.world.store.setData it (fun i => value.getD i 0) with
        heap := { (r.world.store.setData it (fun i => value.getD i 0)).heap with
          cas := Function.update r.world.store.heap.cas it cas } } } := by
    simp only [World.exec, Store.setCas]
    rw [if_pos (show ((r.world.store.setData it _).heap.itFlags it).cas = true from hcb)]
    rfl
  have hsame : ∀ x, x ≠ it → r.world.store.heap.SameItem
      (r.world.exec (.fill it (fun i => value.getD i 0) cas)).2.store.heap x := fun x hne => by
    rw [he]
    exact ⟨rfl, rfl, rfl, Function.update_of_ne hne _ _, rfl, Function.update_of_ne hne _ _, rfl⟩
  have hni := (hv.unlinked_iff hrefs).mp ok.unlinked
  refine ⟨hx, by rw [he]; exact h.now, by rw [he]; exact h.casId, fun k e hl => ?_,
    fun x dx (e : Function.update r.draft it _ x = some dx) => ?_⟩
  · exact h.entries k e (hv.lookup_le h' (fun x hm => hsame x (ne_of_mem_of_not_mem hm hni))
      (fun _ hx => hx) hl)
  · by_cases e' : x = it
    · subst e'
      rw [Function.update_self, Option.some_inj] at e
      subst e
      rw [he]
      refine ⟨ok.held, ok.unlinked, ok.key, ok.nbytes, fun val c e => ?_, ok.flags, ok.exptime⟩
      obtain ⟨rfl, rfl⟩ := Prod.mk.inj (Option.some.inj e)
      have hbytes : (List.range (r.world.store.heap.nbytes x)).map (fun i => value.getD i 0) =
          value := by rw [ok.nbytes, ← hlen]; exact map_getD_range value
      simp only [Store.entry, Heap.bytes, Heap.getCas, Store.setData, Function.update_self, hbytes,
        hcb, if_true]
      rw [ok.flags, ok.exptime]
    · rw [Function.update_of_ne e'] at e
      have okx := h.draft x dx e
      refine okx.keep (hsame x e') ?_ okx.held
      rw [he]
      exact okx.unlinked

theorem Covers.store (h : Covers r m) {it : Ptr} {op : NreadOpType} {d : Draft} {value : List UInt8}
    {cas : UInt64} {status : StoreItemType} {w : World} (hd : r.draft it = some d)
    (hb : d.body = some (value, cas)) (hs : r.world.store.Sparse)
    (he : r.world.exec (.store it op) = (.status status, w)) :
    ∃ m', LossyStep m (.store op d.key ⟨it, value, d.flags, d.exptime, cas⟩ status) m' ∧
      Covers ⟨w, if status = .stored ∧ ¬ op.Joins then Function.update r.draft it none
        else r.draft⟩ m' := by
  have ok := h.draft it d hd
  obtain ⟨refs, ht⟩ := h.tracked
  have hx := ht.next hs (.store it op) ok.held
  rw [he] at hx
  obtain ⟨v, hv⟩ := ht.start (.store it op)
  obtain ⟨q, s', v', refs', he', h', lk, ef⟩ := hv.doStoreItem (ht.slack_bound hs)
    (ok.held.trans (ht.held_le it)) ht.settings.useCas ht.settings.tailRepairTime op
  simp only [World.exec, he', Prod.mk.injEq, Answer.status.injEq] at he
  obtain ⟨rfl, rfl⟩ := he
  have hdr : ∀ x dx, (if q = .stored ∧ ¬ op.Joins then Function.update r.draft it none
      else r.draft) x = some dx → DraftOk { r.world with store := s' } x dx := fun x dx hxd => by
    have hkeep : r.draft x = some dx ∧ (x = it → q ≠ .stored ∨ op.Joins) := by
      split_ifs at hxd with hst
      · have hne : x ≠ it := by rintro rfl; rw [Function.update_self] at hxd; cases hxd
        rw [Function.update_of_ne hne] at hxd
        exact ⟨hxd, fun e => absurd e hne⟩
      · refine ⟨hxd, fun _ => ?_⟩
        by_contra hn
        push Not at hn
        exact hst hn
    have okx := h.draft x dx hkeep.1
    have hrx := okx.held.trans (ht.held_le x)
    refine okx.keep (ef.same x hrx hkeep.2) ?_ okx.held
    exact (h'.unlinked_iff (hrx.trans (lk.ge x))).mpr
      (ef.unlinked x hrx hkeep.2 ((hv.unlinked_iff hrx).mp okx.unlinked))
  have hent := ok.entry value cas hb
  have hcas : r.world.store.heap.getCas it = cas := congrArg Entry.cas hent
  obtain ⟨hg, hst, href, hsto, hcid, hoth, -, -⟩ := ef
  have hnow : m.now = s'.now := h.now.trans hg.now.symm
  have hlive := h.live_missed d.key
  rw [ok.key, ← hlive, hcas] at hst
  rw [ok.key] at href hoth
  rw [ok.key, ← hlive, hent] at hsto
  -- the keys that are not asked for have what they had
  have hothers : ∀ k e, k ≠ d.key → s'.lookup k = some e →
      (m.evict (r.world.store.missed d.key)).entries k = some e := fun k e hk hl => by
    refine h.entries_missed ?_ (.inl hk)
    rcases hoth k hk with e' | ⟨e', -⟩
    · rw [← e']; exact hl
    · rw [e'] at hl; cases hl
  by_cases hq : q = .stored
  · subst hq
    have hst' := hst.elim Eq.symm fun e => absurd e.2.2 (by decide)
    obtain ⟨item, hitem⟩ := hsto rfl
    refine ⟨_, ⟨r.world.store.missed d.key, .stored _ op d.key _ item (fun _ => false) hst' rfl
      fun k hk => absurd hk Bool.false_ne_true⟩, hx, hnow, ?_, fun k e hl => ?_, hdr⟩
    · show m.casId + 1 = s'.casId
      rw [h.casId]; exact hcid.symm
    · rw [evict_false]
      by_cases hk : k = d.key
      · subst hk
        rw [show ({ r.world with store := s' } : World).store.lookup d.key = _ from hitem,
          Option.some.injEq] at hl
        rw [← hl]
        simp only [TimedMap.put, Function.update_self]
        rw [← h.casId]
        rfl
      · simp only [TimedMap.put, Function.update_of_ne hk]
        exact hothers k e hk hl
  · rw [if_neg hq] at hcid
    have hcov : Covers ⟨{ r.world with store := s' }, if q = .stored ∧ ¬ op.Joins then
        Function.update r.draft it none else r.draft⟩ (m.evict (r.world.store.missed d.key)) := by
      refine ⟨hx, hnow, h.casId.trans hcid.symm, fun k e hl => ?_, hdr⟩
      by_cases hk : k = d.key
      · subst hk
        rw [show ({ r.world with store := s' } : World).store.lookup d.key = _ from href hq] at hl
        exact h.entries_missed (hv.reads_some hl).1 (.inr hl)
      · exact hothers k e hk hl
    rcases hst with hst | ⟨hop, hst, rfl⟩
    · refine ⟨_, ⟨r.world.store.missed d.key, ?_⟩, hcov⟩
      have hstep := Step.refused (m.evict (r.world.store.missed d.key)) op d.key
        ⟨it, value, d.flags, d.exptime, cas⟩ (by rw [← hst]; exact hq)
      rwa [← hst] at hstep
    · exact ⟨_, ⟨r.world.store.missed d.key, .failed _ op d.key _ (fun _ => false) hst hop rfl⟩, hcov⟩

/-- A `DoItemGet` that finds nothing: the map forgets the key. -/
theorem Covers.misses (h : Covers r m) {key : Key} {b : Base} {v v' : View} {s' : Store}
    {refs : Ptr → ℕ} (hv : Inv b r.world.store v refs) (hle : ∀ x, r.world.held x ≤ refs x)
    (ms : Inv.Misses b r.world.store s' v v' refs key)
    (ht : ∃ refs', World.Tracked { r.world with store := s' } refs') :
    Covers ⟨{ r.world with store := s' }, r.draft⟩ (m.evict (r.world.store.missed key)) := by
  have hold : Covers ⟨{ r.world with store := s' }, r.draft⟩ m :=
    h.tidied ht hv hle ms.inv ms.data ms.sub fun _ => le_rfl
  refine ⟨ht, hold.now, hold.casId, fun k e hl => ?_, hold.draft⟩
  rw [show ({ r.world with store := s' } : World).store.lookup = _ from ms.lookup] at hl
  by_cases hk : k = key
  · subst hk; rw [Function.update_self] at hl; cases hl
  · rw [Function.update_of_ne hk] at hl
    exact h.entries_missed hl (.inl hk)

/-- A `DoItemGet` that finds an item: the map has it. -/
theorem Covers.hits (h : Covers r m) {key : Key} {b : Base} {v : View} {s' : Store} {x : Ptr}
    {refs : Ptr → ℕ} (hv : Inv b r.world.store v refs) (hle : ∀ x, r.world.held x ≤ refs x)
    (hit : Inv.Hits b r.world.store s' v refs key x)
    (ht : ∃ refs', World.Tracked ⟨s', Function.update r.world.held x (r.world.held x + 1)⟩ refs') :
    Covers ⟨⟨s', Function.update r.world.held x (r.world.held x + 1)⟩, r.draft⟩ m :=
  h.loses ht hv hle hit.inv (fun y _ => hit.quiet.data.sameItem y) (fun _ hy => hy)
    hit.quiet.data.now hit.quiet.data.casId fun it d e =>
      ⟨e, (h.draft it d e).held.trans (le_update r.world.held x it),
        ((h.draft it d e).held.trans (hle it)).trans (le_update refs x it)⟩

/-- Where a reader finds something, nothing is forgotten. -/
theorem evict_missed {s : Store} {key : Key} {e : Entry Ptr} (hr : s.reads key = some e) :
    m.evict (s.missed key) = m := by
  have hm : ∀ k, s.missed key k = false := fun k => by simp [Store.missed, hr]
  rw [funext hm]
  rfl

theorem Covers.get (h : Covers r m) {key : Key} {it : Option Ptr} {w : World}
    (hs : r.world.store.Sparse) (he : r.world.exec (.get key) = (.item it, w)) :
    ∃ m', LossyStep m (.get key (it.map w.store.entry)) m' ∧ Covers ⟨w, r.draft⟩ m' := by
  obtain ⟨refs, ht⟩ := h.tracked
  have hx := ht.next hs (.get key) trivial
  rw [he] at hx
  have hstep := Step.get (m.evict (r.world.store.missed key)) key
  rw [h.live_missed] at hstep
  obtain ⟨v, hv⟩ := ht.start (.get key)
  rcases hv.get_cases key fun x _ _ => ht.le_bound hs x with ⟨s', v', hg, ms⟩ | ⟨x, s', hg, hit⟩
  · simp only [World.exec, hg, World.give, Prod.mk.injEq, Answer.item.injEq] at he
    obtain ⟨rfl, rfl⟩ := he
    rw [ms.reads] at hstep
    exact ⟨_, ⟨_, hstep⟩, h.misses hv ht.held_le ms hx⟩
  · simp only [World.exec, hg, World.give, Prod.mk.injEq, Answer.item.injEq] at he
    obtain ⟨rfl, rfl⟩ := he
    rw [hit.reads, ← (hit.quiet.data.sameItem x).entry] at hstep
    refine ⟨_, ⟨_, hstep⟩, ?_⟩
    rw [evict_missed hit.reads]
    exact h.hits hv ht.held_le hit hx

theorem Covers.touch (h : Covers r m) {key : Key} {exptime : UInt32} {it : Option Ptr} {w : World}
    (hs : r.world.store.Sparse) (he : r.world.exec (.touch key exptime) = (.item it, w)) :
    ∃ m', LossyStep m (.touch key exptime (it.map w.store.entry)) m' ∧ Covers ⟨w, r.draft⟩ m' := by
  obtain ⟨refs, ht⟩ := h.tracked
  have hx := ht.next hs (.touch key exptime) trivial
  rw [he] at hx
  have hlive := h.live_missed key
  have hstep := Step.touch (m.evict (r.world.store.missed key)) key exptime
  rw [hlive] at hstep
  obtain ⟨v, hv⟩ := ht.start (.touch key exptime)
  rcases hv.get_cases key fun x _ _ => ht.le_bound hs x with ⟨s', v', hg, ms⟩ | ⟨x, s', hg, hit⟩
  · simp only [World.exec, Store.doItemTouch, hg, World.give, Prod.mk.injEq,
      Answer.item.injEq] at he
    obtain ⟨rfl, rfl⟩ := he
    rw [ms.reads] at hstep hlive
    rw [live_touch_none hlive] at hstep
    exact ⟨_, ⟨_, hstep⟩, h.misses hv ht.held_le ms hx⟩
  · simp only [World.exec, Store.doItemTouch, hg, World.give, Prod.mk.injEq,
      Answer.item.injEq] at he
    obtain ⟨rfl, rfl⟩ := he
    have q := hit.quiet
    rw [hit.reads, ← (q.data.sameItem x).entry] at hstep hlive
    have hent : (s'.setExptime x exptime).entry x = { s'.entry x with exptime := exptime } := by
      simp only [Store.entry, Store.setExptime, Function.update_self]
      rfl
    have hkx : s'.heap.key x = key := by rw [q.data.key]; exact hit.key
    have hlk := hit.inv.lookup_setExptime hit.mem exptime
    rw [hkx, hv.lookup_same hit.inv q.data rfl] at hlk
    rw [evict_missed hit.reads] at hstep hlive
    refine ⟨m.touch key exptime, ⟨fun _ => false, by rw [Option.map_some, hent]; exact hstep⟩, hx,
      (casId_touch key exptime).2.trans (h.now.trans q.data.now.symm),
      (casId_touch key exptime).1.trans (h.casId.trans q.data.casId.symm), fun k e hl => ?_,
      fun y d e => ?_⟩
    · rw [show (World.mk (s'.setExptime x exptime) _).store.lookup = _ from hlk] at hl
      rw [TimedMap.touch, hlive]
      by_cases e' : k = key
      · subst e'
        rw [Function.update_self] at hl
        simp only [Function.update_self]
        exact hl
      · rw [Function.update_of_ne e'] at hl
        simp only [Function.update_of_ne e']
        exact h.entries k e hl
    · have ok := h.draft y d e
      have hry := ok.held.trans (ht.held_le y)
      have hne : y ≠ x := by
        rintro rfl
        exact (hv.unlinked_iff hry).mp ok.unlinked hit.mem
      refine ok.stays hv (hit.inv.setExptime x exptime) ?_ (fun hy => hy) (ht.held_le y)
        (ok.held.trans (le_update r.world.held x y)) (hry.trans (le_update refs x y))
      exact (q.data.sameItem y).trans ⟨rfl, rfl, Function.update_of_ne hne _ _, rfl, rfl, rfl, rfl⟩

theorem Covers.unlink (h : Covers r m) {it : Ptr} (hc : it.isChunk = true)
    (hs : r.world.store.Sparse) : Covers ⟨(r.world.exec (.unlink it)).2, r.draft⟩ (m.unlink it) := by
  obtain ⟨refs, ht⟩ := h.tracked
  have hx := ht.next hs (.unlink it) hc
  obtain ⟨v, hv⟩ := ht.start (.unlink it)
  -- the map drops an entry of `it` at most, and `it` carries none
  suffices hcov : ∃ b' v' refs', Inv b' (r.world.exec (.unlink it)).2.store v' refs' ∧
      it ∉ v'.items ∧ Covers ⟨(r.world.exec (.unlink it)).2, r.draft⟩ m by
    obtain ⟨b', v', refs', h', hn, hcov⟩ := hcov
    refine ⟨hx, hcov.now, hcov.casId, fun k e hl => ?_, hcov.draft⟩
    have he := hcov.entries k e hl
    have hne : (m.live k).map Entry.item ≠ some it := fun hi => by
      obtain ⟨e', hl', rfl⟩ := Option.map_eq_some_iff.mp hi
      rw [entries_of_live hl', Option.some.injEq] at he
      exact hn (he ▸ h'.lookup_item hl)
    simp only [TimedMap.unlink, if_neg hne]
    exact he
  by_cases hm : it ∈ v.items
  · obtain ⟨v', h', d⟩ := hv.doItemUnlink hm ((ht.le_bound hs it).trans (by decide))
    refine ⟨_, v', refs, h', ?_, h.tidied hx hv ht.held_le h' d.data (fun y hy => ?_)
      fun _ => le_rfl⟩
    · rw [d.items]; exact hv.table.holds.nodup.not_mem_erase
    · rw [d.items] at hy; exact List.mem_of_mem_erase hy
  · have he : (r.world.exec (.unlink it)).2 = r.world := by
      rw [World.exec, hv.doItemUnlink_unlinked hc hm]
    rw [he]
    exact ⟨_, v, refs, hv, hm, h⟩

theorem Covers.remove (h : Covers r m) {it : Ptr} (hpos : 1 ≤ r.world.held it)
    (hs : r.world.store.Sparse) : Covers ⟨(r.world.exec (.remove it)).2,
      if r.world.held it = 1 then Function.update r.draft it none else r.draft⟩ m := by
  obtain ⟨refs, ht⟩ := h.tracked
  have hx := ht.next hs (.remove it) hpos
  obtain ⟨v, hv⟩ := ht.start (.remove it)
  have hheld := ht.held_le it
  have hlt : r.world.heldDuring (.remove it) it < refs it := by
    simp only [World.heldDuring, Function.update_self]
    omega
  have hrc := hv.refcount_le (hv.alloc_of_refs (hpos.trans hheld))
  obtain ⟨v', h', q, -⟩ := hv.doItemRemove hlt (by have := ht.le_bound hs it; omega)
  refine h.loses hx hv ht.held_le h' (fun y _ => q.data.sameItem y)
    (fun y hy => by rw [q.items] at hy; exact hy) q.data.now q.data.casId fun x d e => ?_
  have hxd : r.draft x = some d ∧ (x = it → 2 ≤ r.world.held it) := by
    split_ifs at e with h1
    · have hne : x ≠ it := by rintro rfl; rw [Function.update_self] at e; cases e
      rw [Function.update_of_ne hne] at e
      exact ⟨e, fun e => absurd e hne⟩
    · exact ⟨e, fun _ => by omega⟩
  have ok := h.draft x d hxd.1
  refine ⟨hxd.1, ?_⟩
  show 1 ≤ Function.update r.world.held it (r.world.held it - 1) x ∧ _
  by_cases e' : x = it
  · subst e'
    have := hxd.2 rfl
    rw [Function.update_self, Function.update_self]
    omega
  · rw [Function.update_of_ne e', Function.update_of_ne e']
    exact ⟨ok.held, ok.held.trans (ht.held_le x)⟩

theorem Covers.update (h : Covers r m) {it : Ptr} (hc : it.isChunk = true)
    (hs : r.world.store.Sparse) : Covers ⟨(r.world.exec (.update it)).2, r.draft⟩ m := by
  obtain ⟨refs, ht⟩ := h.tracked
  have hx := ht.next hs (.update it) hc
  obtain ⟨v, hv⟩ := ht.start (.update it)
  obtain ⟨v', h', mv⟩ := hv.doItemUpdate hc
  exact h.tidied hx hv ht.held_le h' mv.data (fun y hy => by rw [mv.items] at hy; exact hy)
    fun _ => le_rfl

theorem migrateBucket_sameData (s : Store) : SameData s s.migrateBucket := by
  obtain ⟨a, e, st, hs, -⟩ := s.migrateBucket_frame
  rw [hs]
  exact ⟨rfl, rfl, rfl, rfl, rfl, rfl, fun _ => rfl, rfl, rfl, rfl, rfl, rfl, fun _ => .refl _, rfl⟩

theorem Covers.migrate (h : Covers r m) (hs : r.world.store.Sparse) :
    Covers ⟨(r.world.exec .migrate).2, r.draft⟩ m := by
  obtain ⟨refs, ht⟩ := h.tracked
  have hx := ht.next hs (.migrate) trivial
  obtain ⟨v, hv⟩ := ht.start .migrate
  exact h.tidied hx hv ht.held_le hv.migrateBucket (migrateBucket_sameData _) (fun _ hy => hy)
    fun _ => le_rfl

/-- **No background operation shows a client anything new.** -/
theorem Covers.background (h : Covers r m) {op : Op} (hb : op.InBackground) (hok : op.Ok r.world)
    (hs : r.world.store.Sparse) : Covers ⟨(r.world.exec op).2, r.draft⟩ m := by
  obtain ⟨refs, ht⟩ := h.tracked
  have hx := ht.next hs op hok
  obtain ⟨v, hv⟩ := ht.start op
  -- the settings are neither an item's nor the table's
  have hset : ∀ st, (∃ refs, World.Tracked { r.world with store :=
      { r.world.store with settings := st } } refs) →
      Covers ⟨{ r.world with store := { r.world.store with settings := st } }, r.draft⟩ m :=
    fun st ht' => ⟨ht', h.now, h.casId, h.entries, fun it d e => (h.draft it d e).keep
      ⟨rfl, rfl, rfl, rfl, rfl, rfl, rfl⟩ (h.draft it d e).unlinked (h.draft it d e).held⟩
  cases op with
  | pull origId curLru totalChunks doEvict curHv =>
    obtain ⟨v', refs', L, h', hp, hl⟩ := hv.itemLRUPullTail ht.settings.tailRepairTime origId curLru
      totalChunks doEvict curHv fun x _ => ht.le_bound hs x
    refine h.tidied hx hv ht.held_le h' hp.data hp.sub fun x => ?_
    rcases hl x with e | ⟨-, -, -, e⟩ <;> omega
  | migrate => exact h.migrate hs
  | flush oldestLive oldestCas => exact hset _ hx
  | maintainer on => exact hset _ hx
  | crawlStart id remaining =>
    obtain ⟨v', h', hi, hc⟩ := hv.doLRUCrawlerStart hok remaining
    refine h.loses hx hv ht.held_le h' (fun x hx => ?_) (fun y hy => by rw [hi] at hy; exact hy)
      hc.globals.now hc.casId fun it d e =>
        ⟨e, (h.draft it d e).held, (h.draft it d e).held.trans (ht.held_le it)⟩
    -- linked items and held ones are chunks
    have hal : v.Alloc x := by
      rcases hx with hx | hx
      · rw [hi] at hx; exact hv.items_alloc x hx
      · exact hv.alloc_of_refs (hx.trans (ht.held_le x))
    obtain ⟨a, rfl⟩ := hv.alloc_chunk hal
    exact (hc.same a).sameItem
  | crawlStep i =>
    obtain ⟨v', refs', h', td, hr⟩ := hv.crawlStep (ht.le_bound hs) i
    refine h.tidied hx hv ht.held_le h' td.data td.sub fun y => ?_
    rcases hr with rfl | ⟨x, -, rfl⟩
    · exact le_rfl
    · by_cases e : y = x
      · subst e; rw [Function.update_self]; omega
      · rw [Function.update_of_ne e]
  | _ => exact hb.elim

/-- **Every operation of the system is a request of the map that forgets**, with the same answer. -/
theorem SparseStep.simulated {r' : Client} {ev : Event Key Ptr} (h : Covers r m)
    (hs : SparseStep r ev r') : ∃ m', LossyStep m ev m' ∧ Covers r' m' := by
  obtain ⟨hsp, hs⟩ := hs
  -- what loses nothing more than the store does is answered by the map itself
  have hsilent : LossyStep m .silent m := ⟨fun _ => false, .silent m⟩
  cases hs with
  | background op hb hok => exact ⟨m, hsilent, h.background hb hok hsp⟩
  | client hs =>
    cases hs with
    | alloc key flags exptime nbytes curHv it w hn he =>
      exact ⟨m, ⟨fun _ => false, .alloc m fun _ => false⟩, h.alloc hn hsp he⟩
    | fill it d value cas hd hlen => exact ⟨m, hsilent, h.fill hd hlen hsp⟩
    | store it op d value cas status w hd hb he => exact h.store hd hb hsp he
    | get key it w he => exact h.get hsp he
    | touch key exptime it w he => exact h.touch hsp he
    | unlink it hc => exact ⟨_, ⟨fun _ => false, .unlink m it⟩, h.unlink hc hsp⟩
    | remove it hpos => exact ⟨m, hsilent, h.remove hpos hsp⟩
    | update it hc => exact ⟨m, hsilent, h.update hc hsp⟩
    | migrate => exact ⟨m, hsilent, h.migrate hsp⟩
    | tick now hnow =>
      obtain ⟨refs, ht⟩ := h.tracked
      exact ⟨_, ⟨fun _ => false, .tick m now (by rw [h.now]; exact hnow)⟩,
        ht.next hsp (.tick now) trivial, rfl, h.casId, h.entries,
        fun it d e => (h.draft it d e).keep ⟨rfl, rfl, rfl, rfl, rfl, rfl, rfl⟩
          (h.draft it d e).unlinked (h.draft it d e).held⟩

theorem Config.Ok.covers {c : Config} (hc : c.Ok) (hash : Key → UInt32) (env : Env) :
    Covers ⟨c.world hash env, fun _ => none⟩ (.empty 0) where
  tracked := ⟨_, .init ⟨c, hash, env, hc, rfl⟩⟩
  now := rfl
  casId := rfl
  entries k e hl := by
    have h := (hc.inv hash env (fun _ => 0) fun _ => rfl).lookup_none (k := k) fun x hx => by cases hx
    rw [show (Client.mk (c.world hash env) fun _ => none).world.store.lookup k = none from h] at hl
    cases hl
  draft _ _ e := by cases e

/-- Every run of the system is covered by a run of the map that forgets. -/
theorem Config.Ok.covered {c : Config} (hc : c.Ok) {hash : Key → UInt32} {env : Env}
    {evs : List (Event Key Ptr)} {r : Client}
    (h : Steps SparseStep ⟨c.world hash env, fun _ => none⟩ evs r) :
    ∃ m : TimedMap Key Ptr, Steps LossyStep (.empty 0) evs m ∧ Covers r m :=
  h.simulate (fun _ _ _ _ hR hs => hs.simulated hR) (hc.covers hash env)

/-- The item a call of the item memory is about. -/
def MemEvent.item : MemEvent → Ptr
  | .alloc it => it
  | .free it _ => it

/-- Whatever has been allocated has few references. -/
def World.Slim (w : World) : Prop := ∀ ev ∈ w.store.trace, w.store.heap.refcount ev.item < 65530

instance (w : World) : Decidable w.Slim := inferInstanceAs (Decidable (∀ ev ∈ w.store.trace, _))

theorem mem_of_isLive {x : Ptr} : ∀ {l : List MemEvent}, IsLive l x → ∃ ev ∈ l, ev.item = x
  | [], h => h.elim
  | .alloc y :: l, h => by
    rcases h with rfl | h
    · exact ⟨_, List.mem_cons_self, rfl⟩
    · obtain ⟨ev, hm, e⟩ := mem_of_isLive h
      exact ⟨ev, List.mem_cons_of_mem _ hm, e⟩
  | .free y linked :: l, h => by
    obtain ⟨ev, hm, e⟩ := mem_of_isLive h.2
    exact ⟨ev, List.mem_cons_of_mem _ hm, e⟩

theorem World.Slim.sparse {w : World} (h : w.Slim) : w.store.Sparse := fun x hx => by
  obtain ⟨ev, hm, rfl⟩ := mem_of_isLive hx
  exact h ev hm

theorem sparse_put (w : World) (draft : Ptr → Option Draft) (key : Key) (flags : Int32)
    (exptime : UInt32) (value : List UInt8) (cas : UInt64) (op : NreadOpType) (it : Ptr)
    (hn : 2 ≤ value.length)
    (ha : (w.exec (.alloc key flags exptime value.length 0)).1 = .item (some it))
    (hs : ((w.run ((putOps key flags exptime value cas op it).take 2)).exec (.store it op)).1 =
      .status .stored)
    (hslim : ∀ i ≤ 2, (w.run ((putOps key flags exptime value cas op it).take i)).Slim) :
    ∃ draft', Steps SparseStep ⟨w, draft⟩
      [.alloc, .silent, .store op key ⟨it, value, flags, exptime, cas⟩ .stored]
      ⟨w.run (putOps key flags exptime value cas op it), draft'⟩ := by
  have h1 := ClientStep.alloc ⟨w, draft⟩ key flags exptime value.length 0 (some it) _ hn
    (Prod.ext ha rfl)
  have h2 := fun d hd => ClientStep.fill ⟨(w.exec (.alloc key flags exptime value.length 0)).2, d⟩ it
    ⟨key, flags, exptime, value.length, none⟩ value cas hd rfl
  have h3 := fun d hd => ClientStep.store
    ⟨w.run ((putOps key flags exptime value cas op it).take 2), d⟩ it op
    ⟨key, flags, exptime, value.length, some (value, cas)⟩ value cas .stored _ hd rfl
    (Prod.ext hs rfl)
  exact ⟨_, .head ⟨(hslim 0 (by decide)).sparse, .client h1⟩
    (.head ⟨(hslim 1 (by decide)).sparse, .client (h2 _ (Function.update_self _ _ _))⟩
      (.head ⟨(hslim 2 (by decide)).sparse, .client (h3 _ (Function.update_self _ _ _))⟩ (.refl _)))⟩

theorem sparse_get (w : World) (draft : Ptr → Option Draft) (key : Key) (it : Option Ptr)
    (h : (w.exec (.get key)).1 = .item it) (hslim : w.Slim) :
    Steps SparseStep ⟨w, draft⟩ [.get key (it.map (w.run [.get key]).store.entry)]
      ⟨w.run [.get key], draft⟩ :=
  .head ⟨hslim.sparse, .client (.get ⟨w, draft⟩ key it _ (Prod.ext h rfl))⟩ (.refl _)

theorem sparse_background (w : World) (draft : Ptr → Option Draft) (op : Op) (hb : op.InBackground)
    (hok : op.Ok w) (hslim : w.Slim) :
    Steps SparseStep ⟨w, draft⟩ [.silent] ⟨w.run [op], draft⟩ :=
  .head ⟨hslim.sparse, .background ⟨w, draft⟩ op hb hok⟩ (.refl _)

/-- A value is set and read, a `CAS` replaces it, a walk with the maintainer thread on evicts it, and
it is a miss. -/
def casThenEvict : List (Event Key Ptr) :=
  [.alloc, .silent, .store .set (.byte 97) ⟨.chunk 4192, [118, 13, 10], 0, 0, 0⟩ .stored,
    .get (.byte 97) (some ⟨.chunk 4192, [118, 13, 10], 0, 0, 1⟩), .alloc, .silent,
    .store .cas (.byte 97) ⟨.chunk 4096, [119, 13, 10], 0, 0, 1⟩ .stored, .silent, .silent, .silent,
    .get (.byte 97) none]

theorem casThenEvict_run : ∃ r, Steps SparseStep ⟨smallWorld, fun _ => none⟩ casThenEvict r ∧
    r.world.store.casId < 2 ^ 64 := by
  obtain ⟨w₁, hw₁⟩ : ∃ w, w = smallWorld.run (putOps (.byte 97) 0 0 [118, 13, 10] 0 .set (.chunk 4192)) :=
    ⟨_, rfl⟩
  obtain ⟨d₁, h1⟩ := sparse_put smallWorld (fun _ => none) (.byte 97) 0 0 [118, 13, 10] 0 .set
    (.chunk 4192) (by decide +kernel) (by decide +kernel) (by decide +kernel) (by decide +kernel)
  rw [← hw₁] at h1
  have h2 := sparse_get w₁ d₁ (.byte 97) (some (.chunk 4192)) (by rw [hw₁]; decide +kernel)
    (by rw [hw₁]; decide +kernel)
  have e2 : Option.map (w₁.run [.get (.byte 97)]).store.entry (some (.chunk 4192)) =
    some ⟨.chunk 4192, [118, 13, 10], 0, 0, 1⟩ := by rw [hw₁]; decide +kernel
  rw [e2] at h2
  obtain ⟨w₂, hw₂⟩ : ∃ w, w = w₁.run [.get (.byte 97)] := ⟨_, rfl⟩
  rw [← hw₂] at h2
  obtain ⟨d₂, h3⟩ := sparse_put w₂ d₁ (.byte 97) 0 0 [119, 13, 10] 1 .cas (.chunk 4096) (by decide +kernel)
    (by rw [hw₂, hw₁]; decide +kernel) (by rw [hw₂, hw₁]; decide +kernel) (by rw [hw₂, hw₁]; decide +kernel)
  obtain ⟨w₃, hw₃⟩ : ∃ w, w = w₂.run (putOps (.byte 97) 0 0 [119, 13, 10] 1 .cas (.chunk 4096)) :=
    ⟨_, rfl⟩
  rw [← hw₃] at h3
  have hheld : 1 ≤ w₃.held (.chunk 4096) := by rw [hw₃, hw₂, hw₁]; decide +kernel
  have h4 := ClientStep.remove ⟨w₃, d₂⟩ (.chunk 4096) hheld
  have s4 : w₃.Slim := by rw [hw₃, hw₂, hw₁]; decide +kernel
  obtain ⟨w₄, hw₄⟩ : ∃ w, w = w₃.run [.remove (.chunk 4096)] := ⟨_, rfl⟩
  obtain ⟨d₄, hd₄⟩ : ∃ d, d = if w₃.held (.chunk 4096) = 1 then Function.update d₂ (.chunk 4096) none
    else d₂ := ⟨_, rfl⟩
  have h4' : Steps SparseStep ⟨w₃, d₂⟩ [.silent] ⟨w₄, d₄⟩ := by
    rw [hw₄, hd₄]
    exact .head ⟨s4.sparse, .client h4⟩ (.refl _)
  have h5 := sparse_background w₄ d₄ (.maintainer true) trivial trivial
    (by rw [hw₄, hw₃, hw₂, hw₁]; decide +kernel)
  obtain ⟨w₅, hw₅⟩ : ∃ w, w = w₄.run [.maintainer true] := ⟨_, rfl⟩
  rw [← hw₅] at h5
  have h6 := sparse_background w₅ d₄ (.pull 1 .cold 0 true 1) trivial trivial
    (by rw [hw₅, hw₄, hw₃, hw₂, hw₁]; decide +kernel)
  obtain ⟨w₆, hw₆⟩ : ∃ w, w = w₅.run [.pull 1 .cold 0 true 1] := ⟨_, rfl⟩
  rw [← hw₆] at h6
  have h7 := sparse_get w₆ d₄ (.byte 97) none (by rw [hw₆, hw₅, hw₄, hw₃, hw₂, hw₁]; decide +kernel)
    (by rw [hw₆, hw₅, hw₄, hw₃, hw₂, hw₁]; decide +kernel)
  refine ⟨_, h1.append (h2.append (h3.append (h4'.append (h5.append (h6.append h7))))), ?_⟩
  show (w₆.run [.get (.byte 97)]).store.casId < 2 ^ 64
  rw [hw₆, hw₅, hw₄, hw₃, hw₂, hw₁]
  decide +kernel

end Mdb
