import Mdb.Store.Ops

/-!
# The walk from the tail

`ItemLRUPullTail` visits nodes of one queue from its tail upwards.
`Pulled curLru curHv doEvict L s s' v v'` says what it may do: only nodes of `L` are touched; an item
that is gone had another hash value than `curHv` and was reclaimable, or eviction was asked for; an
item whose time has changed was not reclaimable, and now has the current time; without the maintainer
thread, the walk over a `COLD` queue keeps the order of all queues.

* `Fate`, `Store.fate`: what becomes of a node that is visited; `Fate.Did`: that it did;
* `Inv.pullItem_fate`, `Inv.pullItem`: one node;
* **`Inv.pullLoop`**: the loop, by induction on the fuel; the part of the queue still to be visited is
  a list `l`, and the loop stands at its last node;
* **`Inv.itemLRUPullTail`**, and `Inv.pullLoop_fuel`: `pullFuel` is enough.
-/

namespace Mdb

open Dll

/-- What a walk over the nodes `L` may do. -/
structure Pulled (curLru : LruStatus) (curHv : UInt32) (doEvict : Bool) (L : List Ptr) (s s' : Store)
    (v v' : View) : Prop where
  data : SameData s s'
  sub : ∀ x ∈ v'.items, x ∈ v.items
  lost : ∀ x ∈ v.items, x ∉ v'.items →
    x ∈ L ∧ s.hv x ≠ curHv ∧ (s.isReclaimable x ∨ doEvict = true)
  time : ∀ x, s'.heap.time x = s.heap.time x ∨
    x ∈ L ∧ s'.heap.time x = s.now ∧ ¬ s.isReclaimable x
  order : curLru = .cold → s.settings.lruMaintainerThread = false →
    ∀ q, (v'.queue q).Sublist (v.queue q)

namespace Pulled

variable {curLru : LruStatus} {curHv : UInt32} {doEvict : Bool} {L L' : List Ptr}
  {s s' s'' : Store} {v v' v'' : View} {x : Ptr}

theorem of_same (hd : SameData s s') (ht : s'.heap.time = s.heap.time) (hi : v'.items = v.items)
    (ho : curLru = .cold → s.settings.lruMaintainerThread = false →
      ∀ q, (v'.queue q).Sublist (v.queue q)) : Pulled curLru curHv doEvict L s s' v v' where
  data := hd
  sub x hx := by rw [hi] at hx; exact hx
  lost x hx hn := by rw [hi] at hn; exact absurd hx hn
  time x := .inl (by rw [ht])
  order := ho

theorem of_quiet (h : Quiet s s' v v') : Pulled curLru curHv doEvict L s s' v v' :=
  of_same h.data h.time h.items fun _ _ q => by rw [h.queue]

theorem of_drops (h : Drops s s' v v' x) (hv : s.hv x ≠ curHv)
    (hr : s.isReclaimable x ∨ doEvict = true) : Pulled curLru curHv doEvict [x] s s' v v' where
  data := h.data
  sub y hy := by rw [h.items] at hy; exact List.mem_of_mem_erase hy
  lost y hy hn := by
    have e : y = x := by
      by_contra hne
      exact hn (by rw [h.items]; exact (List.mem_erase_of_ne hne).mpr hy)
    subst e
    exact ⟨List.mem_singleton_self _, hv, hr⟩
  time y := .inl (by rw [h.time])
  order _ _ := h.order

theorem mono (h : Pulled curLru curHv doEvict L s s' v v') (hL : L ⊆ L') :
    Pulled curLru curHv doEvict L' s s' v v' where
  data := h.data
  sub := h.sub
  lost x hx hn := ⟨hL (h.lost x hx hn).1, (h.lost x hx hn).2⟩
  time x := (h.time x).imp id fun ⟨hx, e⟩ => ⟨hL hx, e⟩
  order := h.order

/-- Two walks over different nodes are one. -/
theorem trans (h : Pulled curLru curHv doEvict L s s' v v')
    (h' : Pulled curLru curHv doEvict L' s' s'' v' v'') (hd : ∀ x ∈ L', x ∉ L) :
    Pulled curLru curHv doEvict (L' ++ L) s s'' v v'' := by
  have hold : ∀ x ∈ L', s'.heap.time x = s.heap.time x := fun x hx =>
    (h.time x).resolve_right fun hr => hd x hx hr.1
  refine ⟨h.data.trans h'.data, fun x hx => h.sub x (h'.sub x hx), fun x hx hn => ?_, fun x => ?_,
    fun hc hoff q => (h'.order hc (by rw [h.data.settings]; exact hoff) q).trans (h.order hc hoff q)⟩
  · by_cases hm : x ∈ v'.items
    · obtain ⟨hL, hv, hr⟩ := h'.lost x hm hn
      rw [h.data.hv] at hv
      rw [h.data.isReclaimable (hold x hL)] at hr
      exact ⟨List.mem_append_left _ hL, hv, hr⟩
    · obtain ⟨hL, hr⟩ := h.lost x hx hm
      exact ⟨List.mem_append_right _ hL, hr⟩
  · rcases h'.time x with e | ⟨hL, e, hr⟩
    · rw [e]
      exact (h.time x).imp id fun ⟨hL, e⟩ => ⟨List.mem_append_right _ hL, e⟩
    · rw [h.data.isReclaimable (hold x hL)] at hr
      exact .inr ⟨List.mem_append_left _ hL, e.trans h.data.now, hr⟩

theorem quiet_left (q : Quiet s s' v v') (h : Pulled curLru curHv doEvict L s' s'' v' v'') :
    Pulled curLru curHv doEvict L s s'' v v'' := by
  have h0 : Pulled curLru curHv doEvict [] s s' v v' := of_quiet q
  have := h0.trans h fun x _ hx => by cases hx
  rwa [List.append_nil] at this

theorem quiet_right (h : Pulled curLru curHv doEvict L s s' v v') (q : Quiet s' s'' v' v'') :
    Pulled curLru curHv doEvict L s s'' v v'' :=
  h.trans (of_quiet (L := []) q) fun x hx => by cases hx

end Pulled

/-- The walk takes references for good, one to each node of `L` at most and none to items of hash
value `curHv`, only in the queues for which the `switch` has no case. -/
def Leaks (s : Store) (curHv : UInt32) (curLru : LruStatus) (L : List Ptr) (refs refs' : Ptr → ℕ) :
    Prop :=
  ∀ x, refs' x = refs x ∨
    x ∈ L ∧ s.hv x ≠ curHv ∧ (curLru = .hot ∨ curLru = .noexp) ∧ refs' x = refs x + 1

namespace Leaks

variable {s s' : Store} {curHv : UInt32} {curLru : LruStatus} {L L' : List Ptr}
  {refs refs₁ refs₂ : Ptr → ℕ} {x : Ptr}

theorem refl (refs : Ptr → ℕ) : Leaks s curHv curLru L refs refs := fun _ => .inl rfl

theorem one (hx : s.hv x ≠ curHv) (hc : curLru = .hot ∨ curLru = .noexp) :
    Leaks s curHv curLru [x] refs (Function.update refs x (refs x + 1)) := fun y => by
  by_cases e : y = x
  · subst e; exact .inr ⟨List.mem_singleton_self _, hx, hc, Function.update_self _ _ _⟩
  · exact .inl (Function.update_of_ne e _ _)

theorem congr (h : Leaks s' curHv curLru L refs refs₁) (hd : SameData s s') :
    Leaks s curHv curLru L refs refs₁ := fun x => by
  rw [← hd.hv]; exact h x

theorem mono (h : Leaks s curHv curLru L refs refs₁) (hL : L ⊆ L') :
    Leaks s curHv curLru L' refs refs₁ := fun x =>
  (h x).imp (fun e => e) fun ⟨hx, e⟩ => ⟨hL hx, e⟩

/-- Walks over different nodes. -/
theorem trans (h : Leaks s curHv curLru L refs refs₁) (h' : Leaks s curHv curLru L' refs₁ refs₂)
    (hd : ∀ x ∈ L', x ∉ L) : Leaks s curHv curLru (L' ++ L) refs refs₂ := fun x => by
  rcases h' x with e | ⟨hL, hx, hc, e⟩
  · rw [e]
    exact (h x).imp (fun e => e) fun ⟨hL, e⟩ => ⟨List.mem_append_right _ hL, e⟩
  · have e' := (h x).resolve_right fun hr => hd x hL hr.1
    exact .inr ⟨List.mem_append_left _ hL, hx, hc, by rw [e, e']⟩

theorem none (h : Leaks s curHv curLru L refs refs₁) (hc : curLru = .warm ∨ curLru = .cold) :
    refs₁ = refs := by
  funext x
  rcases h x with e | ⟨-, -, hl, -⟩
  · exact e
  · rcases hc with rfl | rfl <;> rcases hl with hl | hl <;> cases hl

end Leaks

/-- The walk locks the item. -/
def Store.getsLock (s : Store) (curHv : UInt32) (it : Ptr) : Bool :=
  !s.isCrawlerNode it && s.hv it ≠ curHv && (s.tryLock (s.hv it)).1.isSome

/-! ## What becomes of an item -/

/-- What becomes of an item that a walk looks at. -/
inductive Fate where
  | stays
  /-- It goes to the end of its queue. -/
  | requeued
  /-- It is unlinked. -/
  | dropped
  /-- It goes to the end of another queue. -/
  | moved (q : ℕ)

namespace Fate

/-- The queues afterwards. -/
def queue (queue : ℕ → List Ptr) (id : ℕ) (x : Ptr) : Fate → ℕ → List Ptr
  | .stays => queue
  | .requeued => Inv.moveQueue queue x id id
  | .dropped => Function.update queue id ((queue id).erase x)
  | .moved q => Inv.moveQueue queue x id q

/-- The items afterwards. -/
def items (items : List Ptr) (x : Ptr) : Fate → List Ptr
  | .dropped => items.erase x
  | .stays | .requeued | .moved _ => items

/-- The items that leave their queue. -/
def removed : Fate → ℕ
  | .stays | .requeued => 0
  | .dropped | .moved _ => 1

/-- That has become of item `x` of queue `id`. -/
structure Did (f : Fate) (id : ℕ) (s s' : Store) (v v' : View) (x : Ptr) : Prop where
  data : SameData s s'
  time : ∀ y, s'.heap.time y = s.heap.time y ∨ y = x ∧ f = .requeued ∧ s'.heap.time y = s.now
  items : v'.items = f.items v.items x
  queue : v'.queue = f.queue v.queue id x

namespace Did

variable {f : Fate} {id : ℕ} {s s' s'' : Store} {v v' v'' : View} {x : Ptr}

theorem of_quiet (h : Quiet s s' v v') : Did .stays id s s' v v' x :=
  ⟨h.data, fun _ => .inl (by rw [h.time]), h.items, h.queue⟩

theorem of_drops (h : Drops s s' v v' x) (hid : s.heap.slabsClsid x = id) :
    Did .dropped id s s' v v' x :=
  ⟨h.data, fun _ => .inl (by rw [h.time]), h.items, hid ▸ h.queue⟩

theorem quiet_left (q : Quiet s s' v v') (h : Did f id s' s'' v' v'' x) :
    Did f id s s'' v v'' x where
  data := q.data.trans h.data
  time y := (h.time y).imp (fun e => by rw [e, q.time]) fun ⟨e, hf, ht⟩ =>
    ⟨e, hf, ht.trans q.data.now⟩
  items := by rw [h.items, q.items]
  queue := by rw [h.queue, q.queue]

theorem quiet_right (h : Did f id s s' v v' x) (q : Quiet s' s'' v' v'') :
    Did f id s s'' v v'' x where
  data := h.data.trans q.data
  time y := (h.time y).imp (fun e => by rw [q.time, e]) fun ⟨e, hf, ht⟩ =>
    ⟨e, hf, by rw [q.time, ht]⟩
  items := by rw [q.items, h.items]
  queue := by rw [q.queue, h.queue]

end Did

/-- Nothing changes in front of the item. -/
theorem queue_front (f : Fate) {queue : ℕ → List Ptr} {id : ℕ} {l rest : List Ptr} {x : Ptr}
    (hq : queue id = l ++ x :: rest) (hx : x ∉ l) :
    ∃ rest', f.queue queue id x id = l ++ rest' := by
  have he : (queue id).erase x = l ++ rest := by
    rw [hq, List.erase_append_right _ hx, List.erase_cons_head]
  have hm : ∀ q, ∃ rest', Inv.moveQueue queue x id q id = l ++ rest' := by
    intro q
    by_cases e : id = q
    · exact ⟨rest ++ [x], by simp only [Inv.moveQueue, e, Function.update_self]; rw [← e, he]; simp⟩
    · exact ⟨rest, by simp only [Inv.moveQueue, Function.update_of_ne e, Function.update_self, he]⟩
  cases f with
  | stays => exact ⟨_, hq⟩
  | requeued => exact hm id
  | dropped => exact ⟨rest, by rw [Fate.queue, Function.update_self, he]⟩
  | moved q => exact hm q

end Fate

namespace Store

variable (s : Store)

/-- The item is to be sent to `COLD_LRU`: its queue is over the limit. -/
def isOver (id : ℕ) (totalChunks : UInt64) : Prop :=
  totalChunks * s.settings.warmLruPct / 100 < (s.lru.itemSizes id).toUInt64

instance (id : ℕ) (totalChunks : UInt64) : Decidable (s.isOver id totalChunks) :=
  inferInstanceAs (Decidable (_ < _))

/-- Another queue of the item's class. -/
def sibling (it : Ptr) (st : LruStatus) : ℕ := clearLru (s.heap.slabsClsid it) ||| st.val

/-- What `DoItemUpdateNolock` does with a linked item. -/
def nolockFate (it : Ptr) : Fate :=
  if s.now - itemUpdateInterval ≤ s.heap.time it then .stays else .requeued

/-- The fate of a live item that is locked. -/
def switchFate (id : ℕ) (curLru : LruStatus) (totalChunks : UInt64) (doEvict : Bool) (it : Ptr) :
    Fate :=
  match curLru with
  | .warm =>
    if s.isOver id totalChunks then .moved (s.sibling it .cold)
    else if (s.flags it).active then s.nolockFate it
    else .stays
  | .cold =>
    if doEvict then if s.settings.evictToFree = 0 then .stays else .dropped
    else if (s.flags it).active ∧ s.settings.lruMaintainerThread then .moved (s.sibling it .warm)
    else .stays
  | .hot | .noexp => .stays

/-- The fate of an item that is locked. -/
def lockedFate (id : ℕ) (curLru : LruStatus) (totalChunks : UInt64) (doEvict : Bool) (it : Ptr) :
    Fate :=
  if s.isReclaimable it then .dropped else s.switchFate id curLru totalChunks doEvict it

/-- The fate of a node that the walk comes to. -/
def fate (id : ℕ) (curLru : LruStatus) (totalChunks : UInt64) (doEvict : Bool) (curHv : UInt32)
    (it : Ptr) : Fate :=
  if s.getsLock curHv it then s.lockedFate id curLru totalChunks doEvict it else .stays

/-- The `switch` counts an item of a `COLD` queue that it neither evicts nor moves. -/
def switchIdles (curLru : LruStatus) (doEvict : Bool) (it : Ptr) : Bool :=
  curLru = .cold && !doEvict && !((s.flags it).active && s.settings.lruMaintainerThread)

/-- The walk counts this node, which stays where it is. -/
def idles (curLru : LruStatus) (doEvict : Bool) (curHv : UInt32) (it : Ptr) : Bool :=
  s.getsLock curHv it && !s.isReclaimable it && s.switchIdles curLru doEvict it

end Store

section Fate

variable {s : Store} {id : ℕ} {curLru : LruStatus} {totalChunks : UInt64} {doEvict : Bool}
  {curHv : UInt32} {it : Ptr}

theorem Store.hv_of_getsLock (h : s.getsLock curHv it = true) : s.hv it ≠ curHv := by
  simp only [Store.getsLock, Bool.and_eq_true, decide_eq_true_eq] at h
  exact h.1.2

theorem Store.fate_dropped (h : s.fate id curLru totalChunks doEvict curHv it = .dropped) :
    s.hv it ≠ curHv ∧ (s.isReclaimable it ∨ doEvict = true) := by
  unfold Store.fate Store.lockedFate at h
  split_ifs at h with hg hr
  · exact ⟨s.hv_of_getsLock hg, .inl hr⟩
  · refine ⟨s.hv_of_getsLock hg, .inr ?_⟩
    unfold Store.switchFate at h
    cases curLru with
    | hot => cases h
    | noexp => cases h
    | warm =>
      dsimp only [Store.nolockFate] at h
      split_ifs at h
    | cold =>
      dsimp only at h
      split_ifs at h with hd
      exact hd

theorem Store.fate_requeued (h : s.fate id curLru totalChunks doEvict curHv it = .requeued) :
    ¬ s.isReclaimable it ∧ curLru ≠ .cold := by
  unfold Store.fate Store.lockedFate at h
  split_ifs at h with hg hr
  refine ⟨hr, fun e => ?_⟩
  subst e
  unfold Store.switchFate at h
  dsimp only at h
  split_ifs at h

theorem Store.fate_moved {q : ℕ} (h : s.fate id curLru totalChunks doEvict curHv it = .moved q)
    (hc : curLru = .cold) : s.settings.lruMaintainerThread = true := by
  subst hc
  unfold Store.fate Store.lockedFate Store.switchFate at h
  dsimp only at h
  split_ifs at h with hg hr he hv ha
  exact ha.2

/-- The fates keep to what a walk may do. -/
theorem Fate.Did.pulled {s' : Store} {v v' : View}
    (h : (s.fate id curLru totalChunks doEvict curHv it).Did id s s' v v' it)
    (hid : s.heap.slabsClsid it = id) : Pulled curLru curHv doEvict [it] s s' v v' := by
  have htime : s.fate id curLru totalChunks doEvict curHv it ≠ .requeued →
      s'.heap.time = s.heap.time := fun hne => funext fun y =>
    (h.time y).resolve_right fun hr => hne hr.2.1
  cases hf : s.fate id curLru totalChunks doEvict curHv it with
  | stays =>
    rw [hf] at h htime
    exact .of_same h.data (htime (by simp)) h.items fun _ _ q => by rw [h.queue]; rfl
  | requeued =>
    obtain ⟨hr, hc⟩ := Store.fate_requeued hf
    rw [hf] at h
    refine ⟨h.data, fun x hx => by rw [h.items] at hx; exact hx,
      fun x hx hn => by rw [h.items] at hn; exact absurd hx hn, fun y => ?_, fun e => absurd e hc⟩
    rcases h.time y with e | ⟨rfl, -, ht⟩
    · exact .inl e
    · exact .inr ⟨List.mem_singleton_self _, ht, hr⟩
  | dropped =>
    obtain ⟨hv, hr⟩ := Store.fate_dropped hf
    rw [hf] at h htime
    exact .of_drops ⟨h.data, htime (by simp), h.items, by rw [hid]; exact h.queue⟩ hv hr
  | moved q =>
    have hon := Store.fate_moved hf
    rw [hf] at h htime
    exact .of_same h.data (htime (by simp)) h.items fun hc hoff => by rw [hon hc] at hoff; cases hoff

end Fate

/-- `pullItem` at node `x`: that is its fate, and `n` is counted. -/
def PullOutcome.Fated (b : Base) (id : ℕ) (curLru : LruStatus) (curHv : UInt32) (s : Store) (v : View)
    (refs : Ptr → ℕ) (x : Ptr) (f : Fate) (n : ℕ) : Store.PullOutcome → Prop
  | .skip => x = .crawler id
  | .next s' m => m = n ∧ ∃ v' refs', Inv b s' v' refs' ∧ f.Did id s s' v v' x ∧
      Leaks s curHv curLru [x] refs refs'
  | .stop s' lruStatus m lock => m = n ∧ ∃ v', Inv b (s'.pullFinish x lruStatus lock) v' refs ∧
      f.Did id s (s'.pullFinish x lruStatus lock) v v' x

theorem PullOutcome.Fated.quiet_left {b : Base} {id : ℕ} {curLru : LruStatus} {curHv : UInt32}
    {s s' : Store} {v : View} {refs : Ptr → ℕ} {x : Ptr} {f : Fate} {n : ℕ} {o : Store.PullOutcome}
    (q : Quiet s s' v v) (h : PullOutcome.Fated b id curLru curHv s' v refs x f n o) :
    PullOutcome.Fated b id curLru curHv s v refs x f n o := by
  cases o with
  | skip => exact h
  | next t m =>
    obtain ⟨hm, v', refs', hi, hd, hl⟩ := h
    exact ⟨hm, v', refs', hi, .quiet_left q hd, hl.congr q.data⟩
  | stop t st m lock =>
    obtain ⟨hm, v', hi, hd⟩ := h
    exact ⟨hm, v', hi, .quiet_left q hd⟩

/-- `pullItem` at node `x`, which the walk reaches with the nodes `l` before it, has done its work. -/
def PullOutcome.Ok (b : Base) (id : ℕ) (curLru : LruStatus) (doEvict : Bool) (curHv : UInt32)
    (s : Store) (v : View) (refs : Ptr → ℕ) (l : List Ptr) (x : Ptr) : Store.PullOutcome → Prop
  | .skip => x = .crawler id
  | .next s' _ => ∃ v' refs', Inv b s' v' refs' ∧ Pulled curLru curHv doEvict [x] s s' v v' ∧
      Leaks s curHv curLru [x] refs refs' ∧ ∃ rest, v'.queue id = l ++ rest
  | .stop s' lruStatus _ lock => ∃ v', Inv b (s'.pullFinish x lruStatus lock) v' refs ∧
      Pulled curLru curHv doEvict [x] s (s'.pullFinish x lruStatus lock) v v'

/-- The two top bits of a queue id choose the queue, the others the class. -/
theorem clearLru_or (c : ℕ) (st : LruStatus) :
    clearLru (clearLru c ||| st.val) = clearLru c ∧ clearLru c ||| st.val < largestId := by
  have h : ∀ c : Fin 64, ∀ st : LruStatus, ((c : ℕ) ||| st.val) % 64 = c ∧
      (c : ℕ) ||| st.val < largestId := by
    intro c st
    cases st <;> revert c <;> decide
  exact h ⟨clearLru c, Nat.mod_lt _ (by decide)⟩ st

namespace Inv

variable {b : Base} {s t : Store} {v : View} {refs : Ptr → ℕ} {x : Ptr} {id : ℕ}
  {curLru : LruStatus} {doEvict : Bool} {curHv : UInt32} {l rest : List Ptr}

/-! ## One node -/

theorem countReclaimed_frame (s : Store) (id : ℕ) (x : Ptr) :
    ∃ st, s.countReclaimed id x = { s with itemStats := st } := by
  dsimp only [Store.countReclaimed]
  split_ifs <;> exact ⟨_, rfl⟩

theorem countEvicted_frame (s : Store) (id : ℕ) (x : Ptr) :
    ∃ st, s.countEvicted id x = { s with itemStats := st } := by
  dsimp only [Store.countEvicted]
  split_ifs <;> exact ⟨_, rfl⟩

theorem unlock_quiet (s : Store) (v : View) (lock : ℕ) : Quiet s (s.tryLockUnlock lock) v v :=
  aux_quiet s v _ _ _ _

/-- The walk stops at an item that stays where it is. -/
theorem finish_hot (h : Inv b s v (Function.update refs x (refs x + 1))) (hx : x ∈ v.items)
    (hheld : b.held x ≤ refs x) (hle : refs x ≤ 65534) (lock : ℕ) :
    ∃ v', Inv b (s.pullFinish x .hot lock) v' refs ∧ Quiet s (s.pullFinish x .hot lock) v v' := by
  have hrc := h.refcount_le (h.items_alloc x hx)
  rw [Function.update_self] at hrc
  obtain ⟨v', hv', q⟩ := h.release hheld (by omega)
  exact ⟨v', hv'.aux _ _ _ _ rfl, q.trans (aux_quiet _ v' _ _ _ _)⟩

/-- The walk stops at an item that goes to another queue of its class. -/
theorem finish_move (h : Inv b s v (Function.update refs x (refs x + 1))) (hx : x ∈ v.items)
    (hid : s.heap.slabsClsid x = id) (hheld : b.held x ≤ refs x) (hle : refs x ≤ 65534)
    (st : LruStatus) (hst : st ≠ .hot) (lock : ℕ) :
    ∃ v', Inv b ((s.doItemUnlinkQ x false).pullFinish x st lock) v' refs ∧
      Fate.Did (.moved (s.sibling x st)) id s ((s.doItemUnlinkQ x false).pullFinish x st lock) v v' x := by
  obtain ⟨hc, hlt⟩ := clearLru_or (s.heap.slabsClsid x) st
  have h1 := h.relink hx hc hlt
  have hrc := h1.refcount_le (h.items_alloc x hx)
  rw [Function.update_self] at hrc
  obtain ⟨v', hv', q⟩ := h1.release hheld (by omega)
  have he : (s.doItemUnlinkQ x false).pullFinish x st lock = ((((s.doItemUnlinkQ x false).setClsid x
      (clearLru (s.heap.slabsClsid x) ||| st.val)).doItemLinkQ x false).doItemRemove x).tryLockUnlock
        lock := by
    simp only [Store.pullFinish, if_pos hst]; rfl
  rw [he]
  have hd : SameData s (((s.doItemUnlinkQ x false).setClsid x
      (clearLru (s.heap.slabsClsid x) ||| st.val)).doItemLinkQ x false) :=
    ⟨rfl, rfl, rfl, rfl, rfl, rfl, fun _ => rfl, rfl, rfl, rfl, rfl, rfl, fun _ => .refl _, rfl⟩
  refine ⟨v', hv'.aux _ _ _ _ rfl, hd.trans (q.data.trans (aux_quiet _ v' _ _ _ _).data), fun y => .inl ?_,
    q.items, ?_⟩
  · exact congrFun q.time y
  · subst hid
    exact q.queue

/-- **`DoItemUpdateNolock`.** -/
theorem doItemUpdateNolock (h : Inv b s v refs) (hx : x ∈ v.items)
    (hid : s.heap.slabsClsid x = id) :
    ∃ v', Inv b (s.doItemUpdateNolock x) v' refs ∧
      (s.nolockFate x).Did id s (s.doItemUpdateNolock x) v v' x ∧ v'.items = v.items := by
  unfold Store.doItemUpdateNolock Store.nolockFate
  rw [if_pos (h.linked_of_mem hx)]
  split_ifs
  · exact ⟨v, h, .of_quiet (.refl s v), rfl⟩
  · refine ⟨_, (h.setTime x s.now).relinkSame hx,
      ⟨⟨rfl, rfl, rfl, rfl, rfl, rfl, fun _ => rfl, rfl, rfl, rfl, rfl, rfl, fun _ => .refl _, rfl⟩,
        fun y => ?_, rfl, ?_⟩, rfl⟩
    · by_cases e : y = x
      · subst e
        exact .inr ⟨rfl, rfl, Function.update_self _ _ _⟩
      · exact .inl (Function.update_of_ne e _ _)
    · subst hid
      rfl

/-- **The `switch`.** The item has a reference of the walk's. -/
theorem pullSwitch (h : Inv b s v (Function.update refs x (refs x + 1))) (hx : x ∈ v.items)
    (hid : s.heap.slabsClsid x = id) (hheld : b.held x ≤ refs x) (hle : refs x ≤ 65534)
    (hhv : s.hv x ≠ curHv) (totalChunks : UInt64) (lock : ℕ) :
    PullOutcome.Fated b id curLru curHv s v refs x (s.switchFate id curLru totalChunks doEvict x)
      ((s.switchFate id curLru totalChunks doEvict x).removed +
        (s.switchIdles curLru doEvict x).toNat)
      (s.pullSwitch id curLru totalChunks doEvict x (s.hv x) lock) := by
  have hbump : ∀ f, Inv b (s.bump id f) v (Function.update refs x (refs x + 1)) ∧
      Quiet s (s.bump id f) v v := fun f => ⟨h.bump id f, bump_quiet s v id f⟩
  have hoff : ∀ f, Inv b ((s.bump id f).setFlags x { s.flags x with active := false }) v
      (Function.update refs x (refs x + 1)) ∧
      Quiet s ((s.bump id f).setFlags x { s.flags x with active := false }) v v := fun f =>
    ⟨(hbump f).1.setFlags (h.items_alloc x hx) rfl rfl rfl,
      (hbump f).2.trans (setFlags_quiet _ v x rfl)⟩
  obtain ⟨v₀, hv₀, q₀⟩ := h.finish_hot hx hheld hle lock
  cases curLru with
  | hot => exact ⟨rfl, v, _, h, .of_quiet (.refl s v), .one hhv (.inl rfl)⟩
  | noexp => exact ⟨rfl, v, _, h, .of_quiet (.refl s v), .one hhv (.inr rfl)⟩
  | warm =>
    dsimp only [Store.pullSwitch, Store.switchFate]
    by_cases hover : s.isOver id totalChunks
    · rw [if_pos hover, if_pos (show _ < _ from hover)]
      obtain ⟨hb, hqb⟩ := hbump fun c => { c with movesToCold := c.movesToCold + 1 }
      obtain ⟨v', hv', hd⟩ := hb.finish_move hx hid hheld hle .cold (by decide) lock
      exact ⟨rfl, v', hv', .quiet_left hqb hd⟩
    rw [if_neg hover, if_neg (show ¬ _ < _ from hover)]
    by_cases hact : (s.flags x).active = true
    · rw [if_pos hact, if_pos hact]
      obtain ⟨hb, hqb⟩ := hoff fun c => { c with movesWithinLru := c.movesWithinLru + 1 }
      obtain ⟨v1, h1, hd1, hi1⟩ := hb.doItemUpdateNolock hx hid
      have hrc := h1.refcount_le (h1.items_alloc x (by rw [hi1]; exact hx))
      rw [Function.update_self] at hrc
      obtain ⟨v', hv', q⟩ := h1.release hheld (by omega)
      have hd := ((hd1.quiet_right q).quiet_right (unlock_quiet _ v' lock)).quiet_left hqb
      refine ⟨?_, v', refs, hv'.aux _ _ _ _ rfl, hd, .refl _⟩
      unfold Store.nolockFate
      split_ifs <;> rfl
    · rw [if_neg hact, if_neg hact]
      exact ⟨rfl, v₀, hv₀, .of_quiet q₀⟩
  | cold =>
    dsimp only [Store.pullSwitch, Store.switchFate]
    cases doEvict with
    | true =>
      rw [if_pos rfl, if_pos rfl]
      by_cases hev : s.settings.evictToFree = 0
      · rw [if_pos hev, if_pos hev]
        exact ⟨rfl, v₀, hv₀, .of_quiet q₀⟩
      · rw [if_neg hev, if_neg hev]
        obtain ⟨st, hst⟩ := countEvicted_frame s id x
        obtain ⟨v', hv', d⟩ := (h.aux st s.crawlers s.itemLocks s.env rfl).drop hx hheld hle
        rw [hst]
        exact ⟨rfl, v', hv'.aux _ _ _ _ rfl,
          .quiet_left (aux_quiet s v st s.crawlers s.itemLocks s.env)
            (.quiet_right (.of_drops d hid) (aux_quiet _ v' _ _ _ _))⟩
    | false =>
      rw [if_neg Bool.false_ne_true, if_neg Bool.false_ne_true]
      by_cases hact : (s.flags x).active = true ∧ s.settings.lruMaintainerThread = true
      · rw [if_pos hact, if_pos hact]
        obtain ⟨hb, hqb⟩ := hoff fun c => { c with movesToWarm := c.movesToWarm + 1 }
        obtain ⟨v', hv', hd⟩ := hb.finish_move hx hid hheld hle .warm (by decide) lock
        refine ⟨?_, v', hv', .quiet_left hqb hd⟩
        simp [Store.switchIdles, hact.1, hact.2, Fate.removed]
      · rw [if_neg hact, if_neg hact]
        refine ⟨?_, v₀, hv₀, .of_quiet q₀⟩
        have : ((s.flags x).active && s.settings.lruMaintainerThread) = false := by
          simpa using hact
        simp [Store.switchIdles, this, Fate.removed]

theorem pullReferenced (h : Inv b s v (Function.update refs x (refs x + 1))) (hx : x ∈ v.items)
    (hid : s.heap.slabsClsid x = id) (hheld : b.held x ≤ refs x) (hle : refs x ≤ 65534)
    (hhv : s.hv x ≠ curHv) (totalChunks : UInt64) (lock : ℕ) :
    PullOutcome.Fated b id curLru curHv s v refs x (s.lockedFate id curLru totalChunks doEvict x)
      ((s.lockedFate id curLru totalChunks doEvict x).removed +
        (!s.isReclaimable x && s.switchIdles curLru doEvict x).toNat)
      (s.pullReferenced id curLru totalChunks doEvict x (s.hv x) lock) := by
  unfold Store.pullReferenced Store.lockedFate
  by_cases hr : s.isReclaimable x
  · rw [if_pos hr, if_pos hr]
    obtain ⟨st, hst⟩ := countReclaimed_frame s id x
    obtain ⟨v', hv', d⟩ := (h.aux st s.crawlers s.itemLocks s.env rfl).drop hx hheld hle
    rw [hst]
    refine ⟨by simp [hr, Fate.removed], v', refs, hv'.aux _ _ _ _ rfl,
      .quiet_left (aux_quiet s v st s.crawlers s.itemLocks s.env)
        (.quiet_right (.of_drops d hid) (aux_quiet _ v' _ _ _ _)), .refl _⟩
  · rw [if_neg hr, if_neg hr]
    simpa [hr] using h.pullSwitch hx hid hheld hle hhv totalChunks lock

theorem pullLocked (h : Inv b s v refs) (hx : x ∈ v.items) (hid : s.heap.slabsClsid x = id)
    (hle : refs x ≤ 65534) (hhv : s.hv x ≠ curHv) (hrep : s.settings.tailRepairTime = 0)
    (totalChunks : UInt64) (lock : ℕ) :
    PullOutcome.Fated b id curLru curHv s v refs x (s.lockedFate id curLru totalChunks doEvict x)
      ((s.lockedFate id curLru totalChunks doEvict x).removed +
        (!s.isReclaimable x && s.switchIdles curLru doEvict x).toNat)
      (s.pullLocked id curLru totalChunks doEvict x (s.hv x) lock) := by
  have h1 := h.incr (h.items_alloc x hx)
  have q1 := incr_quiet s v x
  have hno : ∀ f, ¬ (((s.refcountIncr x).2.bump id f).settings.tailRepairTime ≠ 0 ∧
      ((s.refcountIncr x).2.bump id f).heap.time x +
        ((s.refcountIncr x).2.bump id f).settings.tailRepairTime <
          ((s.refcountIncr x).2.bump id f).now) := fun f hc => hc.1 hrep
  dsimp only [Store.pullLocked]
  rw [if_neg (hno _)]
  split_ifs
  · exact .quiet_left (q1.trans (bump_quiet _ v _ _))
      ((h1.bump _ _).pullReferenced hx hid (h.held_le x) hle hhv totalChunks lock)
  · exact .quiet_left q1 (h1.pullReferenced hx hid (h.held_le x) hle hhv totalChunks lock)

/-- What `isCrawlerNode` tells apart. -/
theorem isCrawlerNode_iff (h : Inv b s v refs) (hx : x ∈ v.queue id) :
    s.isCrawlerNode x ∧ x = .crawler id ∨
      ¬ s.isCrawlerNode x ∧ x ∈ v.items ∧ s.heap.slabsClsid x = id := by
  rcases (h.queue_iff x id).mp hx with ⟨hi, hid⟩ | ⟨rfl, hf⟩
  · refine .inr ⟨fun hn => ?_, hi, hid⟩
    obtain ⟨c, hc⟩ := h.items_alloc x hi
    have := (h.alloc_ok c x hc).nbytes
    rw [hn.1] at this
    omega
  · obtain ⟨-, hn, hk⟩ := h.crawler id hf
    exact .inl ⟨⟨hn, by rw [Heap.nkey, hk]; rfl, hf⟩, rfl⟩

/-- **One node of the walk**: its fate. -/
theorem pullItem_fate (h : Inv b s v refs) (hxq : x ∈ v.queue id)
    (hrep : s.settings.tailRepairTime = 0) (curLru : LruStatus) (totalChunks : UInt64)
    (doEvict : Bool) (curHv : UInt32) (hle : s.hv x ≠ curHv → refs x ≤ 65534) :
    PullOutcome.Fated b id curLru curHv s v refs x (s.fate id curLru totalChunks doEvict curHv x)
      ((s.fate id curLru totalChunks doEvict curHv x).removed +
        (s.idles curLru doEvict curHv x).toNat)
      (s.pullItem id curLru totalChunks doEvict curHv x) := by
  have hsame : s.getsLock curHv x = false → ∀ s', Inv b s' v refs → Quiet s s' v v →
      PullOutcome.Fated b id curLru curHv s v refs x (s.fate id curLru totalChunks doEvict curHv x)
        ((s.fate id curLru totalChunks doEvict curHv x).removed +
          (s.idles curLru doEvict curHv x).toNat) (.next s' 0) := fun hg s' h' q => by
    have hf : s.fate id curLru totalChunks doEvict curHv x = .stays :=
      if_neg (by rw [hg]; exact Bool.false_ne_true)
    have hi : s.idles curLru doEvict curHv x = false := by
      rw [Store.idles, hg, Bool.false_and, Bool.false_and]
    rw [hf, hi]
    exact ⟨rfl, v, refs, h', .of_quiet q, .refl _⟩
  unfold Store.pullItem
  rcases h.isCrawlerNode_iff hxq with ⟨hc, e⟩ | ⟨hnc, hx, hid⟩
  · rw [if_pos hc]
    exact e
  rw [if_neg hnc]
  by_cases hhv : s.hv x = curHv
  · rw [if_pos hhv]
    exact hsame (by simp [Store.getsLock, hhv]) s h (.refl s v)
  rw [if_neg hhv]
  obtain ⟨e, ht⟩ | ⟨lock, e, ht⟩ := s.tryLock_cases (s.hv x)
  · rw [ht]
    exact hsame (by simp [Store.getsLock, ht]) _ (h.aux _ _ _ e rfl) (aux_quiet s v _ _ _ e)
  · have hg : s.getsLock curHv x = true := by simp [Store.getsLock, ht, hnc, hhv]
    have hf : s.fate id curLru totalChunks doEvict curHv x =
        s.lockedFate id curLru totalChunks doEvict x := if_pos hg
    have hi : s.idles curLru doEvict curHv x =
        (!s.isReclaimable x && s.switchIdles curLru doEvict x) := by
      rw [Store.idles, hg, Bool.true_and]
    rw [ht, hf, hi]
    exact .quiet_left (aux_quiet s v _ _ _ e)
      ((h.aux _ _ _ e rfl).pullLocked hx hid (hle hhv) hhv hrep totalChunks lock)

/-- A live item that the walk locks comes to the `switch`. -/
theorem pullItem_switch (hg : s.getsLock curHv x = true) (hr : ¬ s.isReclaimable x)
    (hrep : s.settings.tailRepairTime = 0) (id : ℕ) (curLru : LruStatus) (totalChunks : UInt64)
    (doEvict : Bool) : ∃ lock rc st, (s.tryLock (s.hv x)).2.itemLocks = lock :: s.itemLocks ∧
      s.pullItem id curLru totalChunks doEvict curHv x =
        { (s.tryLock (s.hv x)).2 with
          heap := { s.heap with refcount := rc }, itemStats := st }.pullSwitch id curLru totalChunks
            doEvict x (s.hv x) lock := by
  have hg' := hg
  simp only [Store.getsLock, Bool.and_eq_true, Bool.not_eq_true', decide_eq_false_iff_not,
    decide_eq_true_eq] at hg'
  obtain ⟨⟨hnc, hhv⟩, hlock⟩ := hg'
  obtain ⟨e, ht⟩ | ⟨lock, e, ht⟩ := s.tryLock_cases (s.hv x)
  · rw [ht] at hlock
    cases hlock
  rw [Store.pullItem, if_neg hnc, if_neg hhv, ht]
  obtain ⟨u, hu⟩ : ∃ u, u = ({ s with env := e, itemLocks := lock :: s.itemLocks } : Store) := ⟨_, rfl⟩
  have hr1 : ¬ (u.refcountIncr x).2.isReclaimable x := by rw [hu]; exact hr
  have hr2 : ∀ f, ¬ ((u.refcountIncr x).2.bump id f).isReclaimable x := fun _ => hr1
  dsimp only [Store.pullLocked]
  rw [← hu]
  by_cases h2 : (u.refcountIncr x).1 ≠ 2
  · rw [if_pos h2, if_neg fun hno => hno.1 (by rw [hu]; exact hrep), Store.pullReferenced,
      if_neg (hr2 _), hu]
    exact ⟨lock, _, _, rfl, rfl⟩
  · rw [if_neg h2, Store.pullReferenced, if_neg hr1, hu]
    exact ⟨lock, _, _, rfl, rfl⟩

theorem not_mem_before (h : Inv b s v refs) (hq : v.queue id = l ++ x :: rest) : x ∉ l := by
  have hd := (h.queues.dll id).nodup
  rw [hq, List.nodup_append] at hd
  exact fun hx => hd.2.2 x hx x List.mem_cons_self rfl

theorem clsid_of_mem (h : Inv b s v refs) (hx : x ∈ v.queue id) : s.heap.slabsClsid x = id := by
  rcases (h.queue_iff x id).mp hx with ⟨-, hid⟩ | ⟨rfl, hf⟩
  · exact hid
  · exact (h.crawler id hf).1

/-- **One node of the walk.** -/
theorem pullItem (h : Inv b s v refs) (hq : v.queue id = l ++ x :: rest)
    (hrep : s.settings.tailRepairTime = 0) (curLru : LruStatus) (totalChunks : UInt64)
    (doEvict : Bool) (curHv : UInt32) (hle : s.hv x ≠ curHv → refs x ≤ 65534) :
    PullOutcome.Ok b id curLru doEvict curHv s v refs l x
      (s.pullItem id curLru totalChunks doEvict curHv x) := by
  have hxq : x ∈ v.queue id := by rw [hq]; simp
  have hid := h.clsid_of_mem hxq
  have hfated := h.pullItem_fate hxq hrep curLru totalChunks doEvict curHv hle
  cases ho : s.pullItem id curLru totalChunks doEvict curHv x with
  | skip =>
    rw [ho] at hfated
    exact hfated
  | next s' n =>
    rw [ho] at hfated
    obtain ⟨-, v', refs', hi, hd, hl⟩ := hfated
    refine ⟨v', refs', hi, hd.pulled hid, hl, ?_⟩
    rw [hd.queue]
    exact Fate.queue_front _ hq (h.not_mem_before hq)
  | stop s' st n lock =>
    rw [ho] at hfated
    obtain ⟨-, v', hi, hd⟩ := hfated
    exact ⟨v', hi, hd.pulled hid⟩

/-! ## The loop -/

/-- The node above the one the walk stands at. -/
theorem prev_eq (h : Inv b s v refs) (hq : v.queue id = l ++ x :: rest) :
    s.heap.prev x = l.getLast? := by
  have hd := h.queues.dll id
  rw [hq] at hd
  exact hd.mid.1

/-- **The loop of the walk**, at the last node of `l`. -/
theorem pullLoop (b : Base) (id : ℕ) (curLru : LruStatus) (totalChunks : UInt64) (doEvict : Bool)
    (curHv : UInt32) (fuel : ℕ) : ∀ (tries : ℕ) (s : Store) (v : View)
    (refs : Ptr → ℕ) (l rest : List Ptr) (removed : ℕ), Inv b s v refs → v.queue id = l ++ rest →
    (∀ x ∈ l, s.hv x ≠ curHv → refs x ≤ 65534) → s.settings.tailRepairTime = 0 →
    ∃ v' refs', Inv b (Store.pullLoop id curLru totalChunks doEvict curHv fuel tries s l.getLast?
        removed).2 v' refs' ∧
      Pulled curLru curHv doEvict l s (Store.pullLoop id curLru totalChunks doEvict curHv fuel tries s
        l.getLast? removed).2 v v' ∧ Leaks s curHv curLru l refs refs' := by
  induction fuel with
  | zero =>
    intro tries s v refs l rest removed h hq hle hrep
    simp only [Store.pullLoop]
    exact ⟨v, refs, h, .of_quiet (.refl s v), .refl _⟩
  | succ fuel ih =>
    intro tries s v refs l rest removed h hq hle hrep
    cases tries with
    | zero =>
      simp only [Store.pullLoop]
      exact ⟨v, refs, h, .of_quiet (.refl s v), .refl _⟩
    | succ tries =>
      rcases List.eq_nil_or_concat' l with rfl | ⟨l, x, rfl⟩
      · simp only [List.getLast?_nil, Store.pullLoop]
        exact ⟨v, refs, h, .of_quiet (.refl s v), .refl _⟩
      · have hq' : v.queue id = l ++ x :: rest := by rw [hq, List.append_assoc]; rfl
        have hok := h.pullItem hq' hrep curLru totalChunks doEvict curHv (hle x (by simp))
        have hle' : ∀ y ∈ l, s.hv y ≠ curHv → refs y ≤ 65534 := fun y hy =>
          hle y (List.mem_append_left _ hy)
        have hxl := h.not_mem_before hq'
        simp only [List.getLast?_append, List.getLast?_singleton, Option.some_or, Store.pullLoop]
        rw [h.prev_eq hq']
        cases ho : s.pullItem id curLru totalChunks doEvict curHv x with
        | skip =>
          obtain ⟨v', refs', h', hp, hl⟩ :=
            ih (tries + 1) s v refs l (x :: rest) removed h hq' hle' hrep
          exact ⟨v', refs', h', hp.mono (List.subset_append_left _ _),
            hl.mono (List.subset_append_left _ _)⟩
        | next s1 n =>
          rw [ho] at hok
          obtain ⟨v1, refs1, h1, hp1, hl1, rest1, hq1⟩ := hok
          have hl1' : ∀ y ∈ l, refs1 y = refs y := fun y hy =>
            (hl1 y).resolve_right fun hr => hxl (List.mem_singleton.mp hr.1 ▸ hy)
          obtain ⟨v', refs', h', hp, hl⟩ := ih tries s1 v1 refs1 l rest1 (removed + n) h1 hq1
            (fun y hy => by rw [hl1' y hy, hp1.data.hv]; exact hle' y hy)
            (by rw [hp1.data.settings]; exact hrep)
          have hd : ∀ y ∈ l, y ∉ [x] := fun y hy he => hxl (List.mem_singleton.mp he ▸ hy)
          exact ⟨v', refs', h', hp1.trans hp hd, hl1.trans (hl.congr hp1.data) hd⟩
        | stop s1 st n lock =>
          rw [ho] at hok
          obtain ⟨v', h', hp⟩ := hok
          exact ⟨v', refs, h', hp.mono (List.subset_append_right _ _), .refl _⟩

/-- **`ItemLRUPullTail`.** -/
theorem itemLRUPullTail (h : Inv b s v refs) (hrep : s.settings.tailRepairTime = 0) (origId : ℕ)
    (curLru : LruStatus) (totalChunks : UInt64) (doEvict : Bool) (curHv : UInt32)
    (hle : ∀ x, s.hv x ≠ curHv → refs x ≤ 65534) :
    ∃ v' refs' L, Inv b (s.itemLRUPullTail origId curLru totalChunks doEvict curHv).2 v' refs' ∧
      Pulled curLru curHv doEvict L s (s.itemLRUPullTail origId curLru totalChunks doEvict curHv).2 v v' ∧
      Leaks s curHv curLru L refs refs' := by
  unfold Store.itemLRUPullTail
  split_ifs
  · exact ⟨v, refs, [], h, .of_quiet (.refl s v), .refl _⟩
  · dsimp only
    rw [(h.queues.dll _).tail_eq]
    obtain ⟨v', refs', h', hp, hl⟩ := pullLoop b (origId ||| curLru.val) curLru totalChunks
      doEvict curHv Store.pullFuel 5 s v refs (v.queue (origId ||| curLru.val)) [] 0 h
      (List.append_nil _).symm (fun x _ => hle x) hrep
    exact ⟨v', refs', _, h', hp, hl⟩

/-! ## The fuel -/

/-- With no more tries than fuel left over by the crawler nodes ahead, more fuel changes nothing. -/
theorem pullLoop_fuel (b : Base) (id : ℕ) (curLru : LruStatus) (totalChunks : UInt64)
    (doEvict : Bool) (curHv : UInt32) (fuel : ℕ) : ∀ (n tries : ℕ) (s : Store) (v : View)
    (refs : Ptr → ℕ) (l rest : List Ptr) (removed : ℕ), Inv b s v refs → v.queue id = l ++ rest →
    (∀ x ∈ l, s.hv x ≠ curHv → refs x ≤ 65534) → s.settings.tailRepairTime = 0 →
    tries + l.countP (fun x => !x.isChunk) ≤ fuel → fuel ≤ n →
    Store.pullLoop id curLru totalChunks doEvict curHv n tries s l.getLast? removed =
      Store.pullLoop id curLru totalChunks doEvict curHv fuel tries s l.getLast? removed := by
  induction fuel with
  | zero =>
    intro n tries s v refs l rest removed h hq hle hrep ht hn
    have e : tries = 0 := by omega
    subst e
    simp only [Store.pullLoop]
  | succ fuel ih =>
    intro n tries s v refs l rest removed h hq hle hrep ht hn
    obtain ⟨n, rfl⟩ : ∃ m, n = m + 1 := ⟨n - 1, by omega⟩
    cases tries with
    | zero => simp only [Store.pullLoop]
    | succ tries =>
      rcases List.eq_nil_or_concat' l with rfl | ⟨l, x, rfl⟩
      · simp only [List.getLast?_nil, Store.pullLoop]
      · have hq' : v.queue id = l ++ x :: rest := by rw [hq, List.append_assoc]; rfl
        have hok := h.pullItem hq' hrep curLru totalChunks doEvict curHv (hle x (by simp))
        have hle' : ∀ y ∈ l, s.hv y ≠ curHv → refs y ≤ 65534 := fun y hy =>
          hle y (List.mem_append_left _ hy)
        have hxl := h.not_mem_before hq'
        rw [List.countP_append] at ht
        simp only [List.getLast?_append, List.getLast?_singleton, Option.some_or, Store.pullLoop]
        rw [h.prev_eq hq']
        cases ho : s.pullItem id curLru totalChunks doEvict curHv x with
        | skip =>
          rw [ho] at hok
          have hc : [x].countP (fun x => !x.isChunk) = 1 := by rw [show x = .crawler id from hok]; rfl
          exact ih n (tries + 1) s v refs l (x :: rest) removed h hq' hle' hrep (by omega) (by omega)
        | next s1 m =>
          rw [ho] at hok
          obtain ⟨v1, refs1, h1, hp1, hl1, rest1, hq1⟩ := hok
          have hl1' : ∀ y ∈ l, refs1 y = refs y := fun y hy =>
            (hl1 y).resolve_right fun hr => hxl (List.mem_singleton.mp hr.1 ▸ hy)
          exact ih n tries s1 v1 refs1 l rest1 (removed + m) h1 hq1
            (fun y hy => by rw [hl1' y hy, hp1.data.hv]; exact hle' y hy)
            (by rw [hp1.data.settings]; exact hrep)
            (by omega) (by omega)
        | stop s1 st m lock => rfl

theorem crawlers_le (h : Inv b s v refs) (q : ℕ) :
    (v.queue q).countP (fun x => !x.isChunk) ≤ 1 := by
  rw [List.countP_eq_length_filter]
  have hsub : (v.queue q).filter (fun x => !x.isChunk) ⊆ [.crawler q] := fun x hx => by
    rw [List.mem_filter] at hx
    rcases (h.queue_iff x q).mp hx.1 with ⟨hi, -⟩ | ⟨rfl, -⟩
    · rw [h.alloc_isChunk (h.items_alloc x hi)] at hx
      cases hx.2
    · exact List.mem_singleton_self _
  exact (((h.queues.dll q).nodup.filter _).subperm hsub).length_le

/-- **Six rounds are enough** for five tries: the walk meets one crawler node at most. -/
theorem pullFuel_enough (h : Inv b s v refs) (hrep : s.settings.tailRepairTime = 0) (id : ℕ)
    (curLru : LruStatus) (totalChunks : UInt64) (doEvict : Bool) (curHv : UInt32)
    (hle : ∀ x, s.hv x ≠ curHv → refs x ≤ 65534) {n : ℕ} (hn : Store.pullFuel ≤ n) :
    Store.pullLoop id curLru totalChunks doEvict curHv n 5 s (s.lru.tails id) 0 =
      Store.pullLoop id curLru totalChunks doEvict curHv Store.pullFuel 5 s (s.lru.tails id) 0 := by
  have hc := h.crawlers_le id
  rw [(h.queues.dll id).tail_eq]
  exact pullLoop_fuel b id curLru totalChunks doEvict curHv Store.pullFuel n 5 s v refs (v.queue id)
    [] 0 h (List.append_nil _).symm (fun x _ => hle x) hrep (by simp only [Store.pullFuel]; omega) hn

end Inv

end Mdb
