import Mdb.Store.Coherence

/-!
# The store refines the timed map

Clients allocate items, fill them in, store, read, touch, unlink and release them, while the clock
ticks. Whatever they are answered, the timed map answers too.

* `Draft`: what a client has asked `DoItemAlloc` for, and what it has written into the item since;
* `Client`, `ClientStep`: the world with the drafts, and one operation, labelled with the request of
  the timed map that it stands for; `FewStep`: the same while references are few;
* `Shows r m`: the live entries of the map `m` are what readers of the store find;
* **`store_refines_timedMap`**: every run of the clients is a run of the timed map.
-/

namespace Mdb

open Run TimedMap

/-- An item as asked for, with the value and the CAS id its client has put into it, if it has. -/
structure Draft where
  key : Key
  flags : Int32
  exptime : UInt32
  nbytes : ℕ
  body : Option (List UInt8 × UInt64)

/-- The world, and the items allocated and not stored yet. -/
structure Client where
  world : World
  draft : Ptr → Option Draft

/-- The drafts once `it` is allocated. -/
def Client.drafts (r : Client) (it : Option Ptr) (d : Draft) : Ptr → Option Draft :=
  match it with
  | none => r.draft
  | some it => Function.update r.draft it (some d)

/-- **One operation of a client**, and what it looks like from outside. A client stores its drafts,
whole values only, and the clock does not run backwards. -/
inductive ClientStep : Client → Event Key Ptr → Client → Prop where
  | alloc (r : Client) (key : Key) (flags : Int32) (exptime : UInt32) (nbytes : ℕ) (curHv : UInt32)
      (it : Option Ptr) (w : World) (hn : 2 ≤ nbytes)
      (he : r.world.exec (.alloc key flags exptime nbytes curHv) = (.item it, w)) :
      ClientStep r .alloc ⟨w, r.drafts it ⟨key, flags, exptime, nbytes, none⟩⟩
  | fill (r : Client) (it : Ptr) (d : Draft) (value : List UInt8) (cas : UInt64)
      (hd : r.draft it = some d) (hlen : value.length = d.nbytes) :
      ClientStep r .silent ⟨(r.world.exec (.fill it (fun i => value.getD i 0) cas)).2,
        Function.update r.draft it (some { d with body := some (value, cas) })⟩
  | store (r : Client) (it : Ptr) (op : NreadOpType) (d : Draft) (value : List UInt8) (cas : UInt64)
      (status : StoreItemType) (w : World) (hd : r.draft it = some d)
      (hb : d.body = some (value, cas)) (he : r.world.exec (.store it op) = (.status status, w)) :
      ClientStep r (.store op d.key ⟨it, value, d.flags, d.exptime, cas⟩ status)
        ⟨w, if status = .stored ∧ ¬ op.Joins then Function.update r.draft it none else r.draft⟩
  | get (r : Client) (key : Key) (it : Option Ptr) (w : World)
      (he : r.world.exec (.get key) = (.item it, w)) :
      ClientStep r (.get key (it.map w.store.entry)) ⟨w, r.draft⟩
  | touch (r : Client) (key : Key) (exptime : UInt32) (it : Option Ptr) (w : World)
      (he : r.world.exec (.touch key exptime) = (.item it, w)) :
      ClientStep r (.touch key exptime (it.map w.store.entry)) ⟨w, r.draft⟩
  | unlink (r : Client) (it : Ptr) (hc : it.isChunk = true) :
      ClientStep r (.unlink it) ⟨(r.world.exec (.unlink it)).2, r.draft⟩
  | remove (r : Client) (it : Ptr) (hpos : 1 ≤ r.world.held it) :
      ClientStep r .silent ⟨(r.world.exec (.remove it)).2,
        if r.world.held it = 1 then Function.update r.draft it none else r.draft⟩
  | update (r : Client) (it : Ptr) (hc : it.isChunk = true) :
      ClientStep r .silent ⟨(r.world.exec (.update it)).2, r.draft⟩
  | migrate (r : Client) : ClientStep r .silent ⟨(r.world.exec .migrate).2, r.draft⟩
  | tick (r : Client) (now : UInt32) (h : r.world.store.now ≤ now) :
      ClientStep r (.tick now) ⟨(r.world.exec (.tick now)).2, r.draft⟩

/-- One operation while fewer than 65535 references to each item are outstanding. -/
def FewStep (r : Client) (ev : Event Key Ptr) (r' : Client) : Prop :=
  r.world.Few ∧ ClientStep r ev r'

/-! ## The relation -/

/-- The item `it` is as its draft says, held and not linked. -/
structure DraftOk (w : World) (it : Ptr) (d : Draft) : Prop where
  held : 1 ≤ w.held it
  unlinked : (w.store.heap.itFlags it).linked = false
  key : w.store.heap.key it = d.key
  nbytes : w.store.heap.nbytes it = d.nbytes
  entry : ∀ value cas, d.body = some (value, cas) →
    w.store.entry it = ⟨it, value, d.flags, d.exptime, cas⟩
  flags : Int32.ofInt (strtol (w.store.heap.suffix it)) = d.flags
  exptime : w.store.heap.exptime it = d.exptime

/-- **The map `m` shows the store.** -/
structure Shows (r : Client) (m : TimedMap Key Ptr) : Prop where
  balanced : r.world.Balanced
  oldestLive : r.world.store.settings.oldestLive = 0
  now : m.now = r.world.store.now
  casId : m.casId = r.world.store.casId
  live : ∀ k, m.live k = r.world.store.reads k
  draft : ∀ it d, r.draft it = some d → DraftOk r.world it d

section Reads

variable {s s' : Store} {k : Key}

theorem isDead_iff (h : s.settings.oldestLive = 0) (x : Ptr) :
    s.isDead x ↔ (s.entry x).Expired s.now := by
  simp [Store.isDead, Store.isFlushed, h, Entry.Expired, Store.entry]

/-- Without a flush, readers find what the table has, unless it has expired. -/
theorem reads_eq (h : s.settings.oldestLive = 0) (k : Key) :
    s.reads k = (s.lookup k).filter fun e => ¬ e.Expired s.now := by
  unfold Store.reads Store.lookup
  cases s.assocFind k (s.hash k) with
  | none => rfl
  | some x =>
    by_cases hd : s.isDead x
    · simp [Option.filter, hd, (isDead_iff h x).mp hd]
    · have he : ¬ (s.entry x).Expired s.now := fun he => hd ((isDead_iff h x).mpr he)
      simp [Option.filter, hd, he]

theorem reads_congr (h : s.settings.oldestLive = 0) (g : SameGlobals s s')
    (hl : s'.lookup k = s.lookup k) : s'.reads k = s.reads k := by
  rw [reads_eq h, reads_eq (by rw [g.settings]; exact h), hl, g.now]

theorem filter_filter_self {α : Type} (p : α → Bool) (o : Option α) :
    (o.filter p).filter p = o.filter p := by
  cases o with
  | none => rfl
  | some a => by_cases h : p a <;> simp [Option.filter, h]

/-- Dropping an expired entry is not seen. -/
theorem reads_of_lookup_eq_reads (h : s.settings.oldestLive = 0) (g : SameGlobals s s')
    (hl : s'.lookup k = s.reads k) : s'.reads k = s.reads k := by
  rw [reads_eq (by rw [g.settings]; exact h), hl, g.now, reads_eq h, filter_filter_self]

/-- What has expired stays so. -/
theorem filter_later {now now' : UInt32} (h : now ≤ now') (o : Option (Entry Ptr)) :
    (o.filter fun e => ¬ e.Expired now).filter (fun e => ¬ e.Expired now') =
      o.filter fun e => ¬ e.Expired now' := by
  cases o with
  | none => rfl
  | some e =>
    by_cases he : e.Expired now
    · have he' : e.Expired now' := ⟨he.1, UInt32.le_trans he.2 h⟩
      simp [Option.filter, he, he']
    · simp [Option.filter, he]

theorem reads_none_of_lookup (h : s'.lookup k = none) (h0 : s'.settings.oldestLive = 0) :
    s'.reads k = none := by
  rw [reads_eq h0, h]; rfl

end Reads

section Live

variable {m : TimedMap Key Ptr} {k : Key}

theorem live_evict (gone : Key → Bool) (k : Key) :
    (m.evict gone).live k = if gone k then none else m.live k := by
  unfold TimedMap.live TimedMap.evict
  by_cases h : gone k <;> simp [h]

theorem live_put (key : Key) (e : Entry Ptr) (k : Key) :
    (m.put key e).live k =
      if k = key then (some e).filter fun e => ¬ e.Expired m.now else m.live k := by
  unfold TimedMap.live TimedMap.put
  by_cases h : k = key
  · subst h; simp
  · simp [h]

theorem live_touch_none {key : Key} (h : m.live key = none) (exptime : UInt32) :
    m.touch key exptime = m := by
  unfold TimedMap.touch
  rw [h]

theorem live_touch {key : Key} {e : Entry Ptr} (h : m.live key = some e) (exptime : UInt32)
    (k : Key) : (m.touch key exptime).live k =
      if k = key then (some { e with exptime := exptime }).filter fun e => ¬ e.Expired m.now
      else m.live k := by
  unfold TimedMap.touch
  rw [h]
  unfold TimedMap.live
  by_cases hk : k = key
  · subst hk; simp
  · simp [hk]

theorem live_unlink (item : Ptr) (k : Key) : (m.unlink item).live k =
    if (m.live k).map Entry.item = some item then none else m.live k := by
  by_cases h : (m.live k).map Entry.item = some item
  · rw [if_pos h, TimedMap.live, TimedMap.unlink]; simp [h]
  · rw [if_neg h, TimedMap.live, TimedMap.unlink]
    simp only [if_neg h]
    rfl

theorem casId_touch (key : Key) (exptime : UInt32) :
    (m.touch key exptime).casId = m.casId ∧ (m.touch key exptime).now = m.now := by
  unfold TimedMap.touch
  cases m.live key <;> exact ⟨rfl, rfl⟩

end Live

/-! ## The simulation -/

section

variable {b : Base} {s : Store} {v : View} {refs : Ptr → ℕ} {x : Ptr}

theorem Inv.unlinked_iff (h : Inv b s v refs) (hx : 1 ≤ refs x) :
    (s.heap.itFlags x).linked = false ↔ x ∉ v.items := by
  rw [h.mem_items (h.alloc_of_refs hx), Bool.not_eq_true]

theorem DraftOk.keep {w w' : World} {d : Draft} (h : DraftOk w x d)
    (hs : w.store.heap.SameItem w'.store.heap x) (hu : (w'.store.heap.itFlags x).linked = false)
    (hh : 1 ≤ w'.held x) : DraftOk w' x d where
  held := hh
  unlinked := hu
  key := by rw [hs.key]; exact h.key
  nbytes := by rw [hs.nbytes]; exact h.nbytes
  entry value cas e := by rw [hs.entry]; exact h.entry value cas e
  flags := by rw [hs.suffix]; exact h.flags
  exptime := by rw [hs.exptime]; exact h.exptime

/-- A step that shrinks the table, if anything, keeps the drafts. -/
theorem drafts_keep {w w' : World} {draft : Ptr → Option Draft} {v' : View} {refs' : Ptr → ℕ}
    {b' : Base} (hd : ∀ it d, draft it = some d → DraftOk w it d) (h : Inv b w.store v w.held)
    (h' : Inv b' w'.store v' refs')
    (hs : ∀ x, 1 ≤ w.held x → x ∉ v.items → w.store.heap.SameItem w'.store.heap x)
    (hi : ∀ x ∈ v'.items, x ∈ v.items) (hh : ∀ x, w.held x ≤ w'.held x)
    (hr : ∀ x, 1 ≤ w.held x → 1 ≤ refs' x) :
    ∀ it d, draft it = some d → DraftOk w' it d := fun it d e => by
  have ok := hd it d e
  have hn := (h.unlinked_iff ok.held).mp ok.unlinked
  refine ok.keep (hs it ok.held hn) ?_ (ok.held.trans (hh it))
  rw [h'.unlinked_iff (hr it ok.held)]
  exact fun hx => hn (hi it hx)

end

theorem le_update (held : Ptr → ℕ) (x y : Ptr) :
    held y ≤ Function.update held x (held x + 1) y := by
  by_cases e : y = x
  · subst e; rw [Function.update_self]; omega
  · rw [Function.update_of_ne e]

variable {r : Client} {m : TimedMap Key Ptr}

theorem Shows.reads_evict (h : Shows r m) {s' : Store} (g : SameGlobals r.world.store s')
    (hl : ∀ k, s'.lookup k = r.world.store.lookup k ∨ s'.lookup k = none) (k : Key) :
    (m.evict fun k => (s'.lookup k).isNone).live k = s'.reads k := by
  have h0 : s'.settings.oldestLive = 0 := by rw [g.settings]; exact h.oldestLive
  rw [live_evict]
  split_ifs with hn
  · rw [reads_none_of_lookup (Option.isNone_iff_eq_none.mp hn) h0]
  · rw [h.live, reads_congr h.oldestLive g ((hl k).resolve_right fun e => hn (by rw [e]; rfl))]

/-- A silent operation that loses nothing. -/
theorem Shows.silent (h : Shows r m) {w : World} {draft : Ptr → Option Draft} (ht : w.Balanced)
    (g : SameGlobals r.world.store w.store) (hc : w.store.casId = r.world.store.casId)
    (hl : w.store.lookup = r.world.store.lookup) (hd : ∀ it d, draft it = some d → DraftOk w it d) :
    ∃ m', Step m .silent m' ∧ Shows ⟨w, draft⟩ m' := by
  refine ⟨m, .silent m, ht, by rw [g.settings]; exact h.oldestLive, h.now.trans g.now.symm,
    h.casId.trans hc.symm, fun k => ?_, hd⟩
  rw [h.live, reads_congr h.oldestLive g (by rw [hl])]

theorem Shows.alloc (h : Shows r m) {key : Key} {flags : Int32} {exptime : UInt32} {nbytes : ℕ}
    {curHv : UInt32} {it : Option Ptr} {w : World} (hn : 2 ≤ nbytes) (hfew : r.world.Few)
    (he : r.world.exec (.alloc key flags exptime nbytes curHv) = (.item it, w)) :
    ∃ m', Step m .alloc m' ∧ Shows ⟨w, r.drafts it ⟨key, flags, exptime, nbytes, none⟩⟩ m' := by
  have hx := h.balanced.exec (.alloc key flags exptime nbytes curHv) trivial hn hfew
  rw [he] at hx
  obtain ⟨v, hv⟩ := h.balanced.tracked.start (.alloc key flags exptime nbytes curHv)
  have hset := h.balanced.tracked.settings
  obtain ⟨refs', lk, hr⟩ := hv.doItemAlloc hset.tailRepairTime key flags exptime hn curHv
    fun x _ => h.balanced.bound hfew x
  obtain rfl := lk.off h.balanced.off
  rcases hr with ⟨s', v', ha, h', p⟩ | ⟨n, s', v', ha, h', md, hr, hd⟩
  · simp only [World.exec, ha, World.give, Prod.mk.injEq, Answer.item.injEq] at he
    obtain ⟨rfl, rfl⟩ := he
    have hl : ∀ k, s'.lookup k = r.world.store.lookup k ∨ s'.lookup k = none := fun k =>
      (hv.lookup_shrinks h' p k).imp (fun e => e) fun e => e.1
    exact ⟨_, .alloc m fun k => (s'.lookup k).isNone, hx, by
      show s'.settings.oldestLive = 0
      rw [p.data.settings]; exact h.oldestLive, h.now.trans p.data.now.symm,
      h.casId.trans p.data.casId.symm, h.reads_evict p.data.globals hl,
      drafts_keep h.draft hv h' (fun x _ _ => p.data.sameItem x) p.sub (fun _ => le_rfl)
        fun _ hx => hx⟩
  · simp only [World.exec, ha, World.give, Prod.mk.injEq, Answer.item.injEq] at he
    obtain ⟨rfl, rfl⟩ := he
    have hl : ∀ k, s'.lookup k = r.world.store.lookup k ∨ s'.lookup k = none := fun k =>
      (hv.lookup_made h' md k).imp (fun e => e) fun e => e.1
    have hne : ∀ x, 1 ≤ r.world.held x → x ≠ n := by rintro x hx rfl; omega
    have hrefs : ∀ x, 1 ≤ r.world.held x → 1 ≤ Function.update r.world.held n 1 x := fun x hx => by
      rw [Function.update_of_ne (hne x hx)]; exact hx
    refine ⟨_, .alloc m fun k => (s'.lookup k).isNone, hx, by
      show s'.settings.oldestLive = 0
      rw [md.globals.settings]; exact h.oldestLive, h.now.trans md.globals.now.symm,
      h.casId.trans md.casId.symm, h.reads_evict md.globals hl, fun it d e => ?_⟩
    by_cases e' : it = n
    · subst e'
      obtain rfl : ⟨key, flags, exptime, nbytes, none⟩ = d := by
        simpa [Client.drafts] using e
      refine ⟨?_, ?_, hd.key, hd.nbytes, fun _ _ e => (by cases e), ?_, hd.exptime⟩
      · show 1 ≤ Function.update r.world.held it (r.world.held it + 1) it
        rw [Function.update_self]; omega
      · exact (h'.unlinked_iff (by rw [Function.update_self])).mpr md.unlinked
      · show Int32.ofInt (strtol (s'.heap.suffix it)) = flags
        rw [hd.suffix, strtol_itemSuffix]
    · have e0 : r.draft it = some d := by
        simpa [Client.drafts, e'] using e
      have hdr : ∀ it d, r.draft it = some d →
          DraftOk ⟨s', Function.update r.world.held n (r.world.held n + 1)⟩ it d :=
        drafts_keep h.draft hv h'
          (fun x hx _ => md.same x (hne x hx) (h'.alloc_of_refs (hrefs x hx))) md.sub
          (le_update r.world.held n) hrefs
      exact hdr it d e0

/-- The drafts after a store request. -/
theorem Shows.store_drafts (h : Shows r m) {it : Ptr} {op : NreadOpType} {status : StoreItemType}
    {s' : Store} {v v' : View} {b b' : Base} (hv : Inv b r.world.store v r.world.held)
    (h' : Inv b' s' v' r.world.held)
    (ef : StoreEffect op it r.world.held r.world.store s' v v' status) (x : Ptr) (d : Draft)
    (hx : (if status = .stored ∧ ¬ op.Joins then Function.update r.draft it none else r.draft) x =
      some d) : DraftOk { r.world with store := s' } x d := by
  have hkeep : r.draft x = some d ∧ (x = it → status ≠ .stored ∨ op.Joins) := by
    split_ifs at hx with hs
    · have hne : x ≠ it := by rintro rfl; rw [Function.update_self] at hx; cases hx
      rw [Function.update_of_ne hne] at hx
      exact ⟨hx, fun e => absurd e hne⟩
    · refine ⟨hx, fun _ => ?_⟩
      by_contra hn
      push Not at hn
      exact hs hn
  have ok := h.draft x d hkeep.1
  refine ok.keep (ef.same x ok.held hkeep.2) ?_ ok.held
  exact (h'.unlinked_iff ok.held).mpr
    (ef.unlinked x ok.held hkeep.2 ((hv.unlinked_iff ok.held).mp ok.unlinked))

theorem Shows.store (h : Shows r m) {it : Ptr} {op : NreadOpType} {d : Draft} {value : List UInt8}
    {cas : UInt64} {status : StoreItemType} {w : World} (hd : r.draft it = some d)
    (hb : d.body = some (value, cas)) (hfew : r.world.Few)
    (he : r.world.exec (.store it op) = (.status status, w)) :
    ∃ m', Step m (.store op d.key ⟨it, value, d.flags, d.exptime, cas⟩ status) m' ∧
      Shows ⟨w, if status = .stored ∧ ¬ op.Joins then Function.update r.draft it none
        else r.draft⟩ m' := by
  have ok := h.draft it d hd
  have hx := h.balanced.exec (.store it op) trivial ok.held hfew
  rw [he] at hx
  obtain ⟨v, hv⟩ := h.balanced.tracked.start (.store it op)
  have hset := h.balanced.tracked.settings
  obtain ⟨q, s', v', refs', he', h', lk, ef⟩ := hv.doStoreItem (h.balanced.bound hfew) ok.held
    hset.useCas hset.tailRepairTime op
  obtain rfl := lk.off h.balanced.off
  simp only [World.exec, he', Prod.mk.injEq, Answer.status.injEq] at he
  obtain ⟨rfl, rfl⟩ := he
  have hent := ok.entry value cas hb
  have hcas : r.world.store.heap.getCas it = cas := congrArg Entry.cas hent
  have hdr := h.store_drafts hv h' ef
  obtain ⟨hg, hst, href, hsto, hcid, hoth, -, -⟩ := ef
  have h0 : s'.settings.oldestLive = 0 := by rw [hg.settings]; exact h.oldestLive
  have hnow : m.now = s'.now := h.now.trans hg.now.symm
  rw [ok.key, ← h.live, hcas] at hst hoth
  rw [ok.key, ← h.live] at href
  rw [ok.key, ← h.live, hent] at hsto
  -- other keys lose their entry only where a joined value was allocated
  obtain ⟨gone, hgone⟩ : ∃ gone : Key → Bool,
      gone = fun k => decide (k ≠ d.key ∧ op.Joins) && (s'.lookup k).isNone := ⟨_, rfl⟩
  have hgk : gone d.key = false := by simp [hgone]
  have hgj : ∀ k, gone k = true → op.Joins := fun k hk => by
    simp only [hgone, Bool.and_eq_true, decide_eq_true_eq] at hk
    exact hk.1.2
  have hlive : ∀ k, k ≠ d.key → (m.evict gone).live k = s'.reads k := fun k hk => by
    rw [live_evict]
    split_ifs with hn
    · simp only [hgone, Bool.and_eq_true, Option.isNone_iff_eq_none] at hn
      rw [reads_none_of_lookup hn.2 h0]
    · rw [h.live]
      refine (reads_congr h.oldestLive hg ((hoth k hk).resolve_right fun e => hn ?_)).symm
      simp [hgone, hk, e.2.1, e.1]
  have hcast : ∀ n, m.casId + n = r.world.store.casId + n := fun n => by rw [h.casId]
  by_cases hq : q = .stored
  · subst hq
    have hst' := hst.elim Eq.symm fun e => absurd e.2.2 (by decide)
    obtain ⟨item, hitem⟩ := hsto rfl
    refine ⟨_, .stored m op d.key _ item gone hst' hgk hgj, hx, h0, hnow, ?_, fun k => ?_, hdr⟩
    · exact (hcast 1).trans hcid.symm
    · show _ = s'.reads k
      rw [live_put]
      split_ifs with hk
      · subst hk
        rw [reads_eq h0, hitem, ← h.casId, ← hnow]
        rfl
      · exact hlive k hk
  · rw [if_neg hq] at hcid
    have hkey : s'.reads d.key = m.live d.key := by
      rw [h.live]
      exact reads_of_lookup_eq_reads h.oldestLive hg (by rw [← h.live]; exact href hq)
    rcases hst with hst | ⟨hop, hst, rfl⟩
    · subst hst
      refine ⟨m, .refused m op d.key _ hq, hx, h0, hnow, h.casId.trans hcid.symm, fun k => ?_, hdr⟩
      by_cases hk : k = d.key
      · rw [hk, hkey]
      · rw [h.live]
        exact (reads_congr h.oldestLive hg ((hoth k hk).resolve_right fun e => hq e.2.2)).symm
    · refine ⟨_, .failed m op d.key _ gone hst hop hgk, hx, h0, hnow, h.casId.trans hcid.symm,
        fun k => ?_, hdr⟩
      by_cases hk : k = d.key
      · show (m.evict gone).live k = s'.reads k
        rw [live_evict, hk, hgk, if_neg (by decide), hkey]
      · exact hlive k hk

/-- A `DoItemGet` that finds nothing changes nothing a reader sees. -/
theorem Shows.misses (h : Shows r m) {key : Key} {b : Base} {v v' : View} {s' : Store}
    (hv : Inv b r.world.store v r.world.held)
    (ms : Inv.Misses b r.world.store s' v v' r.world.held key)
    (ht : World.Balanced { r.world with store := s' }) :
    Shows ⟨{ r.world with store := s' }, r.draft⟩ m := by
  refine ⟨ht, ?_, h.now.trans ms.data.now.symm, h.casId.trans ms.data.casId.symm, fun k => ?_,
    drafts_keep h.draft hv ms.inv (fun x _ _ => ms.data.sameItem x) ms.sub (fun _ => le_rfl)
      fun _ hx => hx⟩
  · show s'.settings.oldestLive = 0
    rw [ms.data.settings]; exact h.oldestLive
  · rw [h.live]
    symm
    by_cases e : k = key
    · refine reads_of_lookup_eq_reads h.oldestLive ms.data.globals ?_
      rw [e, ms.reads, ms.lookup, Function.update_self]
    · refine reads_congr h.oldestLive ms.data.globals ?_
      rw [ms.lookup, Function.update_of_ne e]

theorem Shows.get (h : Shows r m) {key : Key} {it : Option Ptr} {w : World} (hfew : r.world.Few)
    (he : r.world.exec (.get key) = (.item it, w)) :
    ∃ m', Step m (.get key (it.map w.store.entry)) m' ∧ Shows ⟨w, r.draft⟩ m' := by
  have hx := h.balanced.exec (.get key) trivial trivial hfew
  rw [he] at hx
  have hstep := Step.get m key
  obtain ⟨v, hv⟩ := h.balanced.tracked.start (.get key)
  rcases hv.get_cases key fun x _ _ => hfew.le x with ⟨s', v', hg, ms⟩ | ⟨x, s', hg, hit⟩
  · simp only [World.exec, hg, World.give, Prod.mk.injEq, Answer.item.injEq] at he
    obtain ⟨rfl, rfl⟩ := he
    rw [h.live, ms.reads] at hstep
    exact ⟨m, hstep, h.misses hv ms hx⟩
  · simp only [World.exec, hg, World.give, Prod.mk.injEq, Answer.item.injEq] at he
    obtain ⟨rfl, rfl⟩ := he
    have q := hit.quiet
    rw [h.live, hit.reads, ← (q.data.sameItem x).entry] at hstep
    refine ⟨m, hstep, hx, ?_, h.now.trans q.data.now.symm, h.casId.trans q.data.casId.symm,
      fun k => ?_, drafts_keep h.draft hv hit.inv (fun x _ _ => q.data.sameItem x)
        (fun _ hx => hx) (le_update r.world.held x) fun y hy => hy.trans (le_update _ x y)⟩
    · show s'.settings.oldestLive = 0
      rw [q.data.settings]; exact h.oldestLive
    · rw [h.live]
      refine (reads_congr h.oldestLive q.data.globals ?_).symm
      rw [hv.lookup_same hit.inv q.data rfl]

theorem Inv.lookup_setExptime {b : Base} {s : Store} {v : View} {refs : Ptr → ℕ} {x : Ptr}
    (h : Inv b s v refs) (hx : x ∈ v.items) (t : UInt32) :
    (s.setExptime x t).lookup =
      Function.update s.lookup (s.heap.key x) (some { s.entry x with exptime := t }) := by
  have h' := h.setExptime x t
  have hself : (s.setExptime x t).entry x = { s.entry x with exptime := t } := by
    simp only [Store.entry, Store.setExptime, Function.update_self]
    rfl
  funext k
  by_cases e : k = s.heap.key x
  · rw [e, Function.update_self, ← hself]
    exact h'.lookup_mem hx rfl
  · rw [Function.update_of_ne e]
    refine h.lookup_congr h' (fun y => Iff.rfl) fun y hy hk => Heap.SameItem.entry ?_
    have hne : y ≠ x := by rintro rfl; exact e hk.symm
    exact ⟨rfl, rfl, Function.update_of_ne hne _ _, rfl, rfl, rfl, rfl⟩

theorem Shows.touch (h : Shows r m) {key : Key} {exptime : UInt32} {it : Option Ptr} {w : World}
    (hfew : r.world.Few) (he : r.world.exec (.touch key exptime) = (.item it, w)) :
    ∃ m', Step m (.touch key exptime (it.map w.store.entry)) m' ∧ Shows ⟨w, r.draft⟩ m' := by
  have hx := h.balanced.exec (.touch key exptime) trivial trivial hfew
  rw [he] at hx
  have hstep := Step.touch m key exptime
  obtain ⟨v, hv⟩ := h.balanced.tracked.start (.touch key exptime)
  rcases hv.get_cases key fun x _ _ => hfew.le x with ⟨s', v', hg, ms⟩ | ⟨x, s', hg, hit⟩
  · simp only [World.exec, Store.doItemTouch, hg, World.give, Prod.mk.injEq,
      Answer.item.injEq] at he
    obtain ⟨rfl, rfl⟩ := he
    have hk : m.live key = none := by rw [h.live]; exact ms.reads
    rw [live_touch_none hk, hk] at hstep
    exact ⟨m, hstep, h.misses hv ms hx⟩
  · simp only [World.exec, Store.doItemTouch, hg, World.give, Prod.mk.injEq,
      Answer.item.injEq] at he
    obtain ⟨rfl, rfl⟩ := he
    have q := hit.quiet
    have hk : m.live key = some (s'.entry x) := by
      rw [h.live, hit.reads, (q.data.sameItem x).entry]
    have hkx : s'.heap.key x = key := by rw [q.data.key]; exact hit.key
    have hent : (s'.setExptime x exptime).entry x = { s'.entry x with exptime := exptime } := by
      simp only [Store.entry, Store.setExptime, Function.update_self]
      rfl
    have hlk := hit.inv.lookup_setExptime hit.mem exptime
    rw [hkx, hv.lookup_same hit.inv q.data rfl] at hlk
    have hg' : SameGlobals r.world.store (s'.setExptime x exptime) :=
      q.data.globals.trans ⟨rfl, rfl, rfl, rfl⟩
    have h0 : (s'.setExptime x exptime).settings.oldestLive = 0 := by
      rw [hg'.settings]; exact h.oldestLive
    rw [hk] at hstep
    refine ⟨m.touch key exptime, by rw [Option.map_some, hent]; exact hstep, hx, h0,
      (casId_touch key exptime).2.trans (h.now.trans q.data.now.symm),
      (casId_touch key exptime).1.trans (h.casId.trans q.data.casId.symm), fun k => ?_,
      drafts_keep h.draft hv (hit.inv.setExptime x exptime) (fun y _ hy => ?_) (fun _ hx => hx)
        (le_update r.world.held x) fun y hy => hy.trans (le_update _ x y)⟩
    · show _ = (s'.setExptime x exptime).reads k
      rw [live_touch hk, reads_eq h0, hlk]
      by_cases e : k = key
      · rw [if_pos e, e, Function.update_self, hg'.now, ← h.now]
      · rw [if_neg e, Function.update_of_ne e, h.live, reads_eq h.oldestLive, hg'.now]
    · have hne : y ≠ x := by rintro rfl; exact hy hit.mem
      exact (q.data.sameItem y).trans ⟨rfl, rfl, Function.update_of_ne hne _ _, rfl, rfl, rfl, rfl⟩

/-- A reader of `k` that gets the item `x` gets a linked item with the key `k`. -/
theorem Inv.reads_item {b : Base} {s : Store} {v : View} {refs : Ptr → ℕ} {x : Ptr} {k : Key}
    (h : Inv b s v refs) (hr : (s.reads k).map Entry.item = some x) :
    x ∈ v.items ∧ s.heap.key x = k := by
  rcases h.key_cases k with ⟨y, hy, hk⟩ | hn
  · by_cases hd : s.isDead y
    · rw [h.reads_dead hy hk hd] at hr; cases hr
    · rw [h.reads_hit hy hk hd] at hr
      obtain rfl : y = x := Option.some.inj hr
      exact ⟨hy, hk⟩
  · rw [h.reads_none hn] at hr; cases hr

theorem Shows.unlink (h : Shows r m) {it : Ptr} (hc : it.isChunk = true) (hfew : r.world.Few) :
    ∃ m', Step m (.unlink it) m' ∧ Shows ⟨(r.world.exec (.unlink it)).2, r.draft⟩ m' := by
  have hx := h.balanced.exec (.unlink it) trivial hc hfew
  refine ⟨_, .unlink m it, ?_⟩
  obtain ⟨v, hv⟩ := h.balanced.tracked.start (.unlink it)
  by_cases hm : it ∈ v.items
  · obtain ⟨v', h', d⟩ := hv.doItemUnlink hm ((hfew.le it).trans (by decide))
    have hlk := hv.lookup_drops h' d hm
    obtain ⟨s', hs⟩ : ∃ s', s' = r.world.store.doItemUnlink it (r.world.store.hv it) := ⟨_, rfl⟩
    have he : (r.world.exec (.unlink it)).2 = { r.world with store := s' } := by rw [hs]; rfl
    rw [show r.world.store.hash (r.world.store.heap.key it) = r.world.store.hv it from rfl,
      ← hs] at h' d hlk
    rw [he] at hx ⊢
    have h0 : s'.settings.oldestLive = 0 := by rw [d.data.settings]; exact h.oldestLive
    refine ⟨hx, h0, h.now.trans d.data.now.symm, h.casId.trans d.data.casId.symm, fun k => ?_,
      drafts_keep h.draft hv h' (fun y _ _ => d.data.sameItem y) (fun y hy => ?_) (fun _ => le_rfl)
        fun _ hy => hy⟩
    · show _ = s'.reads k
      rw [live_unlink, h.live]
      by_cases e : r.world.store.heap.key it = k
      · rw [reads_none_of_lookup (by rw [hlk, e, Function.update_self]) h0]
        by_cases hd : r.world.store.isDead it
        · rw [hv.reads_dead hm e hd, ite_self]
        · rw [hv.reads_hit hm e hd]; exact if_pos rfl
      · rw [if_neg fun hr => e (hv.reads_item hr).2,
          reads_congr h.oldestLive d.data.globals (by rw [hlk, Function.update_of_ne (Ne.symm e)])]
    · rw [d.items] at hy
      exact List.mem_of_mem_erase hy
  · have he : (r.world.exec (.unlink it)).2 = r.world := by
      rw [World.exec, hv.doItemUnlink_unlinked hc hm]
    rw [he]
    refine ⟨h.balanced, h.oldestLive, h.now, h.casId, fun k => ?_, h.draft⟩
    rw [live_unlink, h.live, if_neg fun hr => hm (hv.reads_item hr).1]

theorem Shows.tick (h : Shows r m) {now : UInt32} (hnow : r.world.store.now ≤ now)
    (hfew : r.world.Few) :
    ∃ m', Step m (.tick now) m' ∧ Shows ⟨(r.world.exec (.tick now)).2, r.draft⟩ m' := by
  have hx := h.balanced.exec (.tick now) trivial trivial hfew
  refine ⟨_, .tick m now (by rw [h.now]; exact hnow), hx, h.oldestLive, rfl, h.casId, fun k => ?_,
    fun it d e => (h.draft it d e).keep ⟨rfl, rfl, rfl, rfl, rfl, rfl, rfl⟩ (h.draft it d e).unlinked
      (h.draft it d e).held⟩
  have hl : m.live k = r.world.store.reads k := h.live k
  rw [reads_eq h.oldestLive, TimedMap.live, h.now] at hl
  have hr : (r.world.exec (.tick now)).2.store.reads k =
      (r.world.store.lookup k).filter fun e => ¬ e.Expired now :=
    reads_eq (s := (r.world.exec (.tick now)).2.store) h.oldestLive k
  show (m.entries k).filter (fun e => ¬ e.Expired now) = _
  rw [hr, ← filter_later hnow, hl, filter_later hnow]

/-- A silent operation that writes no item and unlinks none. -/
theorem Shows.untouched (h : Shows r m) (op : Op) (hex : op.Exact) (hok : op.Ok r.world)
    (hfew : r.world.Few) {b b' : Base} {v v' : View} {refs' : Ptr → ℕ} {draft : Ptr → Option Draft}
    (hv : Inv b r.world.store v r.world.held) (h' : Inv b' (r.world.exec op).2.store v' refs')
    (hd : SameData r.world.store (r.world.exec op).2.store) (hi : v'.items = v.items)
    (hdr : ∀ it d, draft it = some d → r.draft it = some d ∧ 1 ≤ (r.world.exec op).2.held it ∧
      1 ≤ refs' it) :
    ∃ m', Step m .silent m' ∧ Shows ⟨(r.world.exec op).2, draft⟩ m' := by
  refine h.silent (h.balanced.exec _ hex hok hfew) hd.globals hd.casId
    (hv.lookup_same h' hd hi) fun it d e => ?_
  obtain ⟨e, hheld, hrefs⟩ := hdr it d e
  have ok := h.draft it d e
  refine ok.keep (hd.sameItem it) ?_ hheld
  rw [h'.unlinked_iff hrefs, hi, ← hv.unlinked_iff ok.held]
  exact ok.unlinked

theorem Shows.remove (h : Shows r m) {it : Ptr} (hpos : 1 ≤ r.world.held it) (hfew : r.world.Few) :
    ∃ m', Step m .silent m' ∧ Shows ⟨(r.world.exec (.remove it)).2,
      if r.world.held it = 1 then Function.update r.draft it none else r.draft⟩ m' := by
  obtain ⟨v, hv⟩ := h.balanced.tracked.start (.remove it)
  have hlt : r.world.heldDuring (.remove it) it < r.world.held it := by
    simp only [World.heldDuring, Function.update_self]
    omega
  have hrc := hv.refcount_le (hv.alloc_of_refs hpos)
  obtain ⟨v', h', q, -⟩ := hv.doItemRemove hlt (by have := hfew.le it; omega)
  refine h.untouched (.remove it) trivial hpos hfew hv h' q.data q.items fun x d e => ?_
  have hx : r.draft x = some d ∧ (x = it → 2 ≤ r.world.held it) := by
    split_ifs at e with h1
    · have hne : x ≠ it := by rintro rfl; rw [Function.update_self] at e; cases e
      rw [Function.update_of_ne hne] at e
      exact ⟨e, fun e => absurd e hne⟩
    · exact ⟨e, fun _ => by omega⟩
  have hheld : 1 ≤ Function.update r.world.held it (r.world.held it - 1) x := by
    by_cases e' : x = it
    · rw [e', Function.update_self]; have := hx.2 e'; omega
    · rw [Function.update_of_ne e']; exact (h.draft x d hx.1).held
  exact ⟨hx.1, hheld, hheld⟩

theorem Shows.update (h : Shows r m) {it : Ptr} (hc : it.isChunk = true) (hfew : r.world.Few) :
    ∃ m', Step m .silent m' ∧ Shows ⟨(r.world.exec (.update it)).2, r.draft⟩ m' := by
  obtain ⟨v, hv⟩ := h.balanced.tracked.start (.update it)
  obtain ⟨v', h', mv⟩ := hv.doItemUpdate hc
  exact h.untouched (.update it) trivial hc hfew hv h' mv.data mv.items fun x d e =>
    ⟨e, (h.draft x d e).held, (h.draft x d e).held⟩

theorem Shows.migrate (h : Shows r m) (hfew : r.world.Few) :
    ∃ m', Step m .silent m' ∧ Shows ⟨(r.world.exec .migrate).2, r.draft⟩ m' := by
  obtain ⟨v, hv⟩ := h.balanced.tracked.start .migrate
  obtain ⟨a, e, st, hs, -⟩ := r.world.store.migrateBucket_frame
  have hd : SameData r.world.store r.world.store.migrateBucket := by
    rw [hs]
    exact ⟨rfl, rfl, rfl, rfl, rfl, rfl, fun _ => rfl, rfl, rfl, rfl, rfl, rfl, fun _ => .refl _, rfl⟩
  exact h.untouched .migrate trivial trivial hfew hv hv.migrateBucket hd rfl fun x d e =>
    ⟨e, (h.draft x d e).held, (h.draft x d e).held⟩

theorem map_getD_range (value : List UInt8) :
    (List.range value.length).map (fun i => value.getD i 0) = value := by
  refine List.ext_getElem (by simp) fun i h1 h2 => ?_
  simp [List.getD_eq_getElem?_getD, List.getElem?_eq_getElem h2]

theorem Shows.fill (h : Shows r m) {it : Ptr} {d : Draft} {value : List UInt8} {cas : UInt64}
    (hd : r.draft it = some d) (hlen : value.length = d.nbytes) (hfew : r.world.Few) :
    ∃ m', Step m .silent m' ∧
      Shows ⟨(r.world.exec (.fill it (fun i => value.getD i 0) cas)).2,
        Function.update r.draft it (some { d with body := some (value, cas) })⟩ m' := by
  have ok := h.draft it d hd
  obtain ⟨v, hv⟩ := h.balanced.tracked.start (.fill it (fun i => value.getD i 0) cas)
  have hcb : (r.world.store.heap.itFlags it).cas = true := by
    rw [hv.casBit it (hv.alloc_of_refs ok.held), h.balanced.tracked.settings.useCas]
  have h' := (hv.setData it fun i => value.getD i 0).setCas it cas
  have hx := h.balanced.exec (.fill it (fun i => value.getD i 0) cas) trivial
    ⟨ok.held, ok.unlinked⟩ hfew
  -- the CAS bit is set, so the CAS field is written
  have he : (r.world.exec (.fill it (fun i => value.getD i 0) cas)).2 =
      { r.world with store := { r.world.store.setData it (fun i => value.getD i 0) with
        heap := { (r.world.store.setData it (fun i => value.getD i 0)).heap with
          cas := Function.update r.world.store.heap.cas it cas } } } := by
    simp only [World.exec, Store.setCas]
    rw [if_pos (show ((r.world.store.setData it _).heap.itFlags it).cas = true from hcb)]
    rfl
  have hs : ∀ x, x ≠ it → r.world.store.heap.SameItem
      (r.world.exec (.fill it (fun i => value.getD i 0) cas)).2.store.heap x := fun x hne => by
    rw [he]
    exact ⟨rfl, rfl, rfl, Function.update_of_ne hne _ _, rfl, Function.update_of_ne hne _ _, rfl⟩
  have hni := (hv.unlinked_iff ok.held).mp ok.unlinked
  refine h.silent hx (by rw [he]; exact ⟨rfl, rfl, rfl, rfl⟩) (by rw [he]; rfl) ?_
    fun x dx e => ?_
  · funext k
    refine hv.lookup_congr h' (fun x => ?_) fun x hm _ => (hs x (ne_of_mem_of_not_mem hm hni)).entry
    refine and_congr_right fun hm => ?_
    rw [← (hs x (ne_of_mem_of_not_mem hm hni)).key]
  · by_cases e' : x = it
    · subst e'
      rw [Function.update_self, Option.some_inj] at e
      subst e
      rw [he]
      refine ⟨ok.held, ok.unlinked, ok.key, ok.nbytes, fun val c e => ?_, ok.flags, ok.exptime⟩
      obtain ⟨rfl, rfl⟩ := Prod.mk.inj (Option.some.inj e)
      have hbytes : (List.range (r.world.store.heap.nbytes x)).map (fun i => value.getD i 0) =
          value := by rw [ok.nbytes, ← hlen]; exact map_getD_range value
      simp only [Store.entry, Heap.bytes, Heap.getCas, Store.setData, Function.update_self, hbytes,
        hcb, if_true]
      rw [ok.flags, ok.exptime]
    · rw [Function.update_of_ne e'] at e
      have okx := h.draft x dx e
      refine okx.keep (hs x e') ?_ okx.held
      rw [he]
      exact okx.unlinked

/-- **Every operation of a client is a request of the timed map**, with the same answer. -/
theorem FewStep.simulated {r' : Client} {ev : Event Key Ptr} (h : Shows r m) (hs : FewStep r ev r') :
    ∃ m', Step m ev m' ∧ Shows r' m' := by
  obtain ⟨hfew, hs⟩ := hs
  cases hs with
  | alloc key flags exptime nbytes curHv it w hn he => exact h.alloc hn hfew he
  | fill it d value cas hd hlen => exact h.fill hd hlen hfew
  | store it op d value cas status w hd hb he => exact h.store hd hb hfew he
  | get key it w he => exact h.get hfew he
  | touch key exptime it w he => exact h.touch hfew he
  | unlink it hc => exact h.unlink hc hfew
  | remove it hpos => exact h.remove hpos hfew
  | update it hc => exact h.update hc hfew
  | migrate => exact h.migrate hfew
  | tick now hnow => exact h.tick hnow hfew

/-- The empty map shows the empty store. -/
theorem Config.Ok.shows {c : Config} (hc : c.Ok) (hash : Key → UInt32) (env : Env) :
    Shows ⟨c.world hash env, fun _ => none⟩ (.empty 0) where
  balanced := .init ⟨c, hash, env, hc, rfl⟩
  oldestLive := hc.oldestLive
  now := rfl
  casId := rfl
  live k := by
    have h := (hc.inv hash env (fun _ => 0) fun _ => rfl).reads_none (k := k) fun x hx => by cases hx
    rw [show (Client.mk (c.world hash env) fun _ => none).world.store.reads k = none from h]
    rfl
  draft _ _ e := by cases e

/-- Every run of the clients is shown by a run of the timed map. -/
theorem Config.Ok.shown {c : Config} (hc : c.Ok) {hash : Key → UInt32} {env : Env}
    {evs : List (Event Key Ptr)} {r : Client}
    (h : Steps FewStep ⟨c.world hash env, fun _ => none⟩ evs r) :
    ∃ m : TimedMap Key Ptr, Steps Step (.empty 0) evs m ∧ Shows r m :=
  h.simulate (fun _ _ _ _ hR hs => hs.simulated hR) (hc.shows hash env)

/-- A client allocates the item `it`, fills it in and stores it. -/
def putOps (key : Key) (flags : Int32) (exptime : UInt32) (value : List UInt8) (cas : UInt64)
    (op : NreadOpType) (it : Ptr) : List Op :=
  [.alloc key flags exptime value.length 0, .fill it (fun i => value.getD i 0) cas, .store it op]

theorem steps_put (w : World) (draft : Ptr → Option Draft) (key : Key) (flags : Int32)
    (exptime : UInt32) (value : List UInt8) (cas : UInt64) (op : NreadOpType) (it : Ptr)
    (hn : 2 ≤ value.length)
    (ha : (w.exec (.alloc key flags exptime value.length 0)).1 = .item (some it))
    (hs : ((w.run ((putOps key flags exptime value cas op it).take 2)).exec (.store it op)).1 =
      .status .stored) :
    ∃ draft', Steps ClientStep ⟨w, draft⟩
      [.alloc, .silent, .store op key ⟨it, value, flags, exptime, cas⟩ .stored]
      ⟨w.run (putOps key flags exptime value cas op it), draft'⟩ := by
  have h1 := ClientStep.alloc ⟨w, draft⟩ key flags exptime value.length 0 (some it) _ hn
    (Prod.ext ha rfl)
  have h2 := fun d hd => ClientStep.fill ⟨(w.exec (.alloc key flags exptime value.length 0)).2, d⟩ it
    ⟨key, flags, exptime, value.length, none⟩ value cas hd rfl
  have h3 := fun d hd => ClientStep.store
    ⟨w.run ((putOps key flags exptime value cas op it).take 2), d⟩ it op
    ⟨key, flags, exptime, value.length, some (value, cas)⟩ value cas .stored _ hd rfl
    (Prod.ext hs rfl)
  exact ⟨_, .head h1 (.head (h2 _ (Function.update_self _ _ _)) (.head
    (h3 _ (Function.update_self _ _ _)) (.refl _)))⟩

theorem steps_get (w : World) (draft : Ptr → Option Draft) (key : Key) (it : Option Ptr)
    (h : (w.exec (.get key)).1 = .item it) :
    Steps ClientStep ⟨w, draft⟩ [.get key (it.map (w.run [.get key]).store.entry)]
      ⟨w.run [.get key], draft⟩ :=
  .head (.get ⟨w, draft⟩ key it _ (Prod.ext h rfl)) (.refl _)

theorem ClientStep.held_le {r r' : Client} {ev : Event Key Ptr} (h : ClientStep r ev r') (x : Ptr) :
    r'.world.held x ≤ r.world.held x + 1 := by
  cases h with
  | alloc key flags exptime nbytes curHv it w hn he =>
    have := r.world.held_exec_le (.alloc key flags exptime nbytes curHv) x
    rwa [he] at this
  | store it op d value cas status w hd hb he =>
    have := r.world.held_exec_le (.store it op) x
    rwa [he] at this
  | get key it w he =>
    have := r.world.held_exec_le (.get key) x
    rwa [he] at this
  | touch key exptime it w he =>
    have := r.world.held_exec_le (.touch key exptime) x
    rwa [he] at this
  | _ => exact r.world.held_exec_le _ x

/-- In a short run references are few. -/
theorem steps_few {r r' : Client} {evs : List (Event Key Ptr)} (h : Steps ClientStep r evs r')
    (hr : ∀ x, r.world.held x + evs.length < 65535) : Steps FewStep r evs r' := by
  induction h with
  | refl s => exact .refl s
  | head ha _ ih =>
    refine .head ⟨fun x => lt_of_le_of_lt (Nat.le_add_right _ _) (hr x), ha⟩ (ih fun x => ?_)
    have h1 := ha.held_le x
    have h2 := hr x
    simp only [List.length_cons] at h2
    omega

/-- The operations of a client that sets a value which expires, reads it, and looks for it again. -/
def setAndExpire : List Op :=
  putOps (.byte 97) 7 5 [118, 13, 10] 0 .set (.chunk 4192) ++
    ([.get (.byte 97)] ++ ([.tick 5] ++ [.get (.byte 97)]))

end Mdb
