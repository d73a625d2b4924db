import Mdb.TimedMap

/-!
# The map that forgets

A cache among threads that evict, tidy and flush: the timed map, which may lose entries at any
time. What a client can rely on all the same.

* `LossyStep`: a request, before which the map has lost entries;
* `Step.entry_cases`: where an entry comes from, request by request;
* `Event.write`, `written`: the value and the flags that the stores to a key amount to, one after the
  other, as if nothing were ever lost;
* `Truthful`, **`truthful_of_lossy`**: a reader that finds anything finds what was written, and what
  was deleted does not come back;
* **`noLostUpdate_of_lossy`**: a `CAS` that succeeds has seen the last store.
-/

namespace Mdb

open Run

namespace TimedMap

variable {K H : Type} [DecidableEq K] [DecidableEq H] {m m' : TimedMap K H} {ev : Event K H} {key : K}

/-- **A request of the map that forgets**: the keys in `gone` are lost first. -/
def LossyStep (m : TimedMap K H) (ev : Event K H) (m' : TimedMap K H) : Prop :=
  ∃ gone : K → Bool, Step (m.evict gone) ev m'

/-! ## Where entries come from -/

/-- The entry `e'` for `key` was there before, as `e`; only its time may be another. -/
structure Stays (m : TimedMap K H) (ev : Event K H) (key : K) (e e' : Entry H) : Prop where
  entry : m.entries key = some e
  stores : ¬ ev.Stores key
  same : e' = { e with exptime := e'.exptime }
  expired : e.Expired m.now → e' = e
  unlink : ev = .unlink e.item → e.Expired m.now

omit [DecidableEq K] [DecidableEq H] in
theorem Stays.of_same {e : Entry H} (he : m.entries key = some e) (hs : ¬ ev.Stores key)
    (hu : ev ≠ .unlink e.item) : Stays m ev key e e :=
  ⟨he, hs, rfl, fun _ => rfl, fun h => absurd h hu⟩

/-- The entry `e'` for `key` has been stored by `ev`. -/
def Stored (m : TimedMap K H) (ev : Event K H) (key : K) (e' : Entry H) : Prop :=
  ∃ op new item cas, ev = .store op key new .stored ∧
    storeStatus op (m.live key) new.cas = .stored ∧ e' = storeEntry op (m.live key) new item cas

/-- **An entry was there before, or has just been stored.** -/
theorem Step.entry_cases (h : Step m ev m') {e' : Entry H} (he : m'.entries key = some e') :
    (∃ e, Stays m ev key e e') ∨ Stored m ev key e' := by
  cases h with
  | stored op k new item gone hst hkey hgone =>
    by_cases hk : key = k
    · subst hk
      simp only [put, Function.update_self, Option.some.injEq] at he
      exact .inr ⟨op, new, item, _, rfl, hst, he.symm⟩
    · simp only [put, Function.update_of_ne hk] at he
      refine .inl ⟨e', .of_same (entries_of_evict he) ?_ (by rintro ⟨⟩)⟩
      rintro ⟨op', new', e⟩
      exact hk (Event.store.inj e).2.1.symm
  | refused op k new hst =>
    refine .inl ⟨e', .of_same he ?_ (by rintro ⟨⟩)⟩
    rintro ⟨op', new', e⟩
    exact hst (Event.store.inj e).2.2.2
  | failed op k new gone hst hop hkey =>
    exact .inl ⟨e', .of_same (entries_of_evict he) (by rintro ⟨_, _, ⟨⟩⟩) (by rintro ⟨⟩)⟩
  | touch k exptime =>
    have hns : ¬ (Event.touch k exptime ((m.live k).map fun e => { e with exptime := exptime })).Stores
        key := by rintro ⟨_, _, ⟨⟩⟩
    unfold TimedMap.touch at he
    cases hl : m.live k with
    | none => rw [hl] at he; exact .inl ⟨e', .of_same he (hl ▸ hns) (by rintro ⟨⟩)⟩
    | some e =>
      rw [hl] at he
      by_cases hk : key = k
      · subst hk
        simp only [Function.update_self, Option.some.injEq] at he
        have hlive : ¬ e.Expired m.now := by simpa using (Option.filter_eq_some_iff.mp hl).2
        exact .inl ⟨e, entries_of_live hl, hl ▸ hns, by rw [← he], fun hx => absurd hx hlive,
          by rintro ⟨⟩⟩
      · simp only [Function.update_of_ne hk] at he
        exact .inl ⟨e', .of_same he (hl ▸ hns) (by rintro ⟨⟩)⟩
  | unlink item =>
    simp only [TimedMap.unlink] at he
    split_ifs at he with hi
    refine .inl ⟨e', he, by rintro ⟨_, _, ⟨⟩⟩, rfl, fun _ => rfl, fun hu => ?_⟩
    obtain rfl := Event.unlink.inj hu
    by_contra hx
    exact hi (by rw [live, he, Option.filter_some, if_pos (by simpa using hx)]; rfl)
  | alloc gone =>
    exact .inl ⟨e', .of_same (entries_of_evict he) (by rintro ⟨_, _, ⟨⟩⟩) (by rintro ⟨⟩)⟩
  | get | tick | silent =>
    exact .inl ⟨e', .of_same he (by rintro ⟨_, _, ⟨⟩⟩) (by rintro ⟨⟩)⟩

theorem Step.now_le (h : Step m ev m') : m.now ≤ m'.now := by
  cases h with
  | tick now hle => exact hle
  | touch key exptime =>
    unfold TimedMap.touch
    split <;> exact UInt32.le_refl _
  | _ => exact UInt32.le_refl _

omit [DecidableEq K] [DecidableEq H] in
theorem live_of_evict {gone : K → Bool} {e : Entry H} (h : (m.evict gone).live key = some e) :
    m.live key = some e := by
  obtain ⟨h1, h2⟩ := Option.filter_eq_some_iff.mp h
  exact Option.filter_eq_some_iff.mpr ⟨entries_of_evict h1, h2⟩

/-! ## What was written -/

/-- What `ev` makes of the value and the flags last written for `key`. -/
def Event.write (key : K) (old : Option (List UInt8 × Int32)) :
    Event K H → Option (List UInt8 × Int32)
  | .store op key' new .stored =>
    if key' ≠ key then old
    else if op.Joins then old.map fun p => (joinValue op p.1 new.value, p.2)
    else some (new.value, new.flags)
  | _ => old

/-- **What the requests have written for `key`**: the stores that succeeded, one after the other. -/
def written (evs : List (Event K H)) (key : K) : Option (List UInt8 × Int32) :=
  evs.foldl (fun old ev => ev.write key old) none

omit [DecidableEq H] in
theorem written_concat (evs : List (Event K H)) (ev : Event K H) (key : K) :
    written (evs ++ [ev]) key = ev.write key (written evs key) := by
  rw [written, List.foldl_append]; rfl

omit [DecidableEq H] in
theorem Event.write_of_not_stores {old : Option (List UInt8 × Int32)} (h : ¬ ev.Stores key) :
    ev.write key old = old := by
  unfold Event.write
  split
  · rename_i op key' new
    by_cases hk : key' = key
    · subst hk; exact absurd ⟨op, new, rfl⟩ h
    · rw [if_pos hk]
  · rfl

omit [DecidableEq H] in
/-- A joined value needs a live entry. -/
theorem live_of_joins {op : NreadOpType} {old : Option (Entry H)} {cas : UInt64} (hop : op.Joins)
    (h : storeStatus op old cas = .stored) : ∃ e, old = some e := by
  cases old with
  | some e => exact ⟨e, rfl⟩
  | none => rcases hop with rfl | rfl <;> cases h

omit [DecidableEq H] in
/-- What a store leaves is what it writes. -/
theorem write_storeEntry (key : K) {op : NreadOpType} {old : Option (Entry H)} {new : Entry H} {item : H}
    {cas : UInt64} (h : storeStatus op old new.cas = .stored) :
    (Event.store op key new .stored).write key (old.map fun e => (e.value, e.flags)) =
      some ((storeEntry op old new item cas).value, (storeEntry op old new item cas).flags) := by
  simp only [Event.write, ne_eq, not_true_eq_false, if_false]
  by_cases hop : op.Joins
  · rw [if_pos hop]
    obtain ⟨e, rfl⟩ := live_of_joins hop h
    rcases hop with rfl | rfl <;> rfl
  · rw [if_neg hop, storeEntry]
    · exact fun e he => absurd (.inl he) hop
    · exact fun e he => absurd (.inr he) hop

/-- Every entry has the value and the flags written for its key. -/
def Current (evs : List (Event K H)) (m : TimedMap K H) : Prop :=
  ∀ key e, m.entries key = some e → written evs key = some (e.value, e.flags)

theorem Current.step {evs : List (Event K H)} (h : Current evs m) (hs : LossyStep m ev m') :
    Current (evs ++ [ev]) m' := fun key e' he => by
  obtain ⟨gone, hs⟩ := hs
  rw [written_concat]
  rcases hs.entry_cases he with ⟨e, st⟩ | ⟨op, new, item, cas, rfl, hst, rfl⟩
  · rw [Event.write_of_not_stores st.stores, h key e (entries_of_evict st.entry), st.same]
  · rw [← write_storeEntry key hst]
    cases hl : (m.evict gone).live key with
    | some e => rw [h key e (entries_of_evict (entries_of_live hl))]; rfl
    | none =>
      rw [hl] at hst
      have hop : ¬ op.Joins := fun hop => by obtain ⟨e, he⟩ := live_of_joins hop hst; cases he
      simp only [Event.write, ne_eq, not_true_eq_false, if_false, if_neg hop]

/-! ## What was deleted -/

/-- Only `item` carries an entry for `key`. -/
def Carries (m : TimedMap K H) (key : K) (item : H) : Prop :=
  ∀ e, m.entries key = some e → e.item = item

/-- No reader finds anything for `key`, now or later. -/
def Dead (m : TimedMap K H) (key : K) : Prop := ∀ e, m.entries key = some e → e.Expired m.now

theorem Carries.step {item : H} (h : m.Carries key item) (hs : LossyStep m ev m')
    (hns : ¬ ev.Stores key) : m'.Carries key item := fun e' he => by
  obtain ⟨gone, hs⟩ := hs
  rcases hs.entry_cases he with ⟨e, st⟩ | ⟨op, new, item, cas, rfl, -, -⟩
  · rw [st.same]; exact h e (entries_of_evict st.entry)
  · exact absurd ⟨op, new, rfl⟩ hns

theorem Dead.step (h : m.Dead key) (hs : LossyStep m ev m') (hns : ¬ ev.Stores key) :
    m'.Dead key := fun e' he => by
  obtain ⟨gone, hs⟩ := hs
  rcases hs.entry_cases he with ⟨e, st⟩ | ⟨op, new, item, cas, rfl, -, -⟩
  · have hx := h e (entries_of_evict st.entry)
    rw [st.expired hx]
    exact ⟨hx.1, UInt32.le_trans hx.2 hs.now_le⟩
  · exact absurd ⟨op, new, rfl⟩ hns

/-- The item that carries a key's entry is unlinked. -/
theorem Carries.unlink {item : H} (h : m.Carries key item) (hs : LossyStep m (.unlink item) m') :
    m'.Dead key := fun e' he => by
  obtain ⟨gone, hs⟩ := hs
  rcases hs.entry_cases he with ⟨e, st⟩ | ⟨op, new, item, cas, e, -, -⟩
  · have hx := st.unlink (by rw [h e (entries_of_evict st.entry)])
    rw [st.expired hx]
    exact ⟨hx.1, UInt32.le_trans hx.2 hs.now_le⟩
  · cases e

theorem LossyStep.get_hit {e : Entry H} (hs : LossyStep m (.get key (some e)) m') :
    m.live key = some e ∧ m'.Carries key e.item := by
  obtain ⟨gone, hs⟩ := hs
  obtain ⟨hl, rfl⟩ : (m.evict gone).live key = some e ∧ m' = m.evict gone := by
    generalize hm : m.evict gone = m₀ at hs
    generalize hev : Event.get key (some e) = ev at hs
    cases hs with
    | get k =>
      obtain ⟨rfl, hl⟩ := Event.get.inj hev
      exact ⟨hl.symm, rfl⟩
    | _ => cases hev
  refine ⟨live_of_evict hl, fun e' he => ?_⟩
  rw [entries_of_live hl] at he
  rw [Option.some.inj he]

theorem Carries.steps {item : H} {evs : List (Event K H)} (h : m.Carries key item)
    (hr : Steps LossyStep m evs m') (hns : ∀ ev ∈ evs, ¬ ev.Stores key) : m'.Carries key item := by
  induction hr with
  | refl => exact h
  | head hs _ ih =>
    exact ih (h.step hs (hns _ List.mem_cons_self)) fun ev hm => hns ev (List.mem_cons_of_mem _ hm)

theorem Dead.steps {evs : List (Event K H)} (h : m.Dead key) (hr : Steps LossyStep m evs m')
    (hns : ∀ ev ∈ evs, ¬ ev.Stores key) : m'.Dead key := by
  induction hr with
  | refl => exact h
  | head hs _ ih =>
    exact ih (h.step hs (hns _ List.mem_cons_self)) fun ev hm => hns ev (List.mem_cons_of_mem _ hm)

/-! ## What clients can rely on -/

/-- **What a cache owes its readers.** A hit is what was written; and once the item that a reader has
got is unlinked, the key is a miss until it is stored to. -/
structure Truthful (evs : List (Event K H)) : Prop where
  hit : ∀ (key : K) (e : Entry H) (as bs : List (Event K H)),
    evs = as ++ Event.get key (some e) :: bs → written as key = some (e.value, e.flags)
  deleted : ∀ (key : K) (e e' : Entry H) (as bs cs ds : List (Event K H)),
    evs = as ++ Event.get key (some e) ::
      (bs ++ Event.unlink e.item :: (cs ++ Event.get key (some e') :: ds)) →
    ∃ ev ∈ bs ++ cs, ev.Stores key

/-- **The map that forgets is faithful.** -/
theorem truthful_of_lossy {now : UInt32} {evs : List (Event K H)}
    (h : Steps LossyStep (.empty now) evs m) : Truthful evs := by
  constructor
  · rintro key e as bs rfl
    obtain ⟨m₁, h₁, h₂⟩ := h.split
    have hc : Current as m₁ := h₁.history (fun _ _ he => by cases he) fun _ _ _ _ hI hs => hI.step hs
    cases h₂ with
    | head hs _ => exact hc key e (entries_of_live hs.get_hit.1)
  · rintro key e e' as bs cs ds rfl
    by_contra hn
    push Not at hn
    obtain ⟨m₁, -, h₁⟩ := h.split
    cases h₁ with
    | head hs hr =>
      obtain ⟨m₂, h₂, hr⟩ := hr.split
      have hcar := hs.get_hit.2.steps h₂ fun ev hm => hn ev (List.mem_append_left _ hm)
      cases hr with
      | head hs hr =>
        obtain ⟨m₃, h₃, hr⟩ := hr.split
        have hdead := (hcar.unlink hs).steps h₃ fun ev hm => hn ev (List.mem_append_right _ hm)
        cases hr with
        | head hs _ =>
          obtain ⟨he, hx⟩ := Option.filter_eq_some_iff.mp hs.get_hit.1
          exact (by simpa using hx : ¬ e'.Expired m₃.now) (hdead e' he)

/-- What is lost before a request may as well be lost by an allocation. -/
theorem steps_of_lossy {evs : List (Event K H)} (h : Steps LossyStep m evs m') :
    Steps Step m (evs.flatMap fun ev => [Event.alloc, ev]) m' := by
  induction h with
  | refl s => exact .refl s
  | head hs _ ih =>
    obtain ⟨gone, hs⟩ := hs
    exact .head (.alloc _ gone) (.head hs ih)

/-- **No update is lost** by the map that forgets. -/
theorem noLostUpdate_of_lossy {now : UInt32} {evs : List (Event K H)}
    (h : Steps LossyStep (.empty now) evs m) (hid : m.casId < 2 ^ 64) : NoLostUpdate evs := by
  have hn := noLostUpdate (steps_of_lossy h) hid
  have hsplit : ∀ (as bs cs : List (Event K H)) (ev ev' : Event K H),
      (as ++ ev :: (bs ++ ev' :: cs)).flatMap (fun ev => [Event.alloc, ev]) =
        (as.flatMap (fun ev => [Event.alloc, ev]) ++ [Event.alloc]) ++ ev ::
          ((bs.flatMap (fun ev => [Event.alloc, ev]) ++ [Event.alloc]) ++ ev' ::
            cs.flatMap fun ev => [Event.alloc, ev]) := fun as bs cs ev ev' => by
    simp [List.flatMap_append, List.flatMap_cons]
  constructor
  · rintro key c as bs cs ev ev' rfl h1
    exact hn.once key c _ _ _ ev ev' (hsplit as bs cs ev ev') h1
  · rintro key c as bs cs ev ev' rfl h1 h2 e hm
    refine hn.fresh key c _ _ _ ev ev' (hsplit as bs cs ev ev') h1 h2 e ?_
    exact List.mem_append_left _ (List.mem_flatMap.mpr ⟨e, hm, by simp⟩)

end TimedMap

end Mdb
