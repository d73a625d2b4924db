import Mdb.Store.Coherence
import Mdb.Store.Fit
import Mdb.Store.Trace

/-!
# What the tail walk leaves behind

`ItemLRUPullTail` takes the lock of an item and a reference to it, and gives both back in one of several
places. Nothing here needs an invariant: the lemmas are about any store.

* `Store.tally`: the reference count of an item, with its link bit; `LetGo`: at the end of a call the
  items that were unlinked have lost the reference of their link, and nothing else has changed;
* `Holds`: the walk has the lock of an item and a reference to it; `Holds.release`, `Holds.drop`: how it
  gives them back;
* `CallEvent.ofItems`: what happens to item locks;
* **`pull_neutral`**: over `WARM` and `COLD` queues everything is given back, and over a `HOT` queue if the
  walk gets the lock of no live item; **`pull_leaks`**: otherwise it is not.
-/

namespace Mdb

open Locks

/-! ## Counts, link bits and item locks -/

/-- One reference less, as the 16-bit counter has it. -/
def refDecr (n : ℕ) : ℕ := if n = 0 then 2 ^ 16 - 1 else n - 1

theorem refDecr_succ (n : ℕ) : refDecr (n + 1) = n := rfl

theorem refDecr_mod (n : ℕ) : (refDecr n + 1) % 2 ^ 16 = n % 2 ^ 16 := by
  cases n with
  | zero => rfl
  | succ n => rfl

namespace Store

variable (s : Store) (it : Ptr) (hv : UInt32)

/-- The reference count of an item, and whether it is linked. -/
def tally (x : Ptr) : ℕ × Bool := (s.heap.refcount x, (s.heap.itFlags x).linked)

end Store

/-- Counts, link bits and item locks are the same. -/
structure SameTally (s t : Store) : Prop where
  tally : t.tally = s.tally
  itemLocks : t.itemLocks = s.itemLocks

namespace SameTally

variable {s t u : Store}

theorem refl (s : Store) : SameTally s s := ⟨rfl, rfl⟩

theorem trans (h : SameTally s t) (h' : SameTally t u) : SameTally s u :=
  ⟨h'.tally.trans h.tally, h'.itemLocks.trans h.itemLocks⟩

theorem setFlags (s : Store) (it : Ptr) {f : ItemFlags}
    (h : f.linked = (s.heap.itFlags it).linked) :
    SameTally s (s.setFlags it f) := by
  refine ⟨funext fun x => ?_, rfl⟩
  by_cases e : x = it
  · subst e
    simp [Store.tally, Store.setFlags, h]
  · simp [Store.tally, Store.setFlags, e]

theorem bump (s : Store) (id : ℕ) (f : ItemStats → ItemStats) : SameTally s (s.bump id f) := ⟨rfl, rfl⟩

theorem doItemUnlinkQ (s : Store) (it : Ptr) (cr : Bool) : SameTally s (s.doItemUnlinkQ it cr) :=
  ⟨rfl, rfl⟩

theorem freeItem (s : Store) (it : Ptr) : SameTally s (s.freeItem it) := by
  unfold Store.freeItem Store.doSlabsFree
  split_ifs
  · exact trans (setFlags s it (f := { s.heap.itFlags it with slabbed := true }) rfl) ⟨rfl, rfl⟩
  · exact ⟨rfl, rfl⟩

theorem countReclaimed (s : Store) (id : ℕ) (it : Ptr) : SameTally s (s.countReclaimed id it) := by
  dsimp only [Store.countReclaimed]
  split_ifs <;> exact ⟨rfl, rfl⟩

theorem countEvicted (s : Store) (id : ℕ) (it : Ptr) : SameTally s (s.countEvicted id it) := by
  dsimp only [Store.countEvicted]
  split_ifs <;> exact ⟨rfl, rfl⟩

theorem doItemUpdateNolock (s : Store) (it : Ptr) : SameTally s (s.doItemUpdateNolock it) := by
  unfold Store.doItemUpdateNolock
  split_ifs <;> exact ⟨rfl, rfl⟩

end SameTally

namespace Store

variable (s : Store) (it : Ptr) (hv : UInt32)

theorem setRefcount_tally (n : ℕ) :
    (s.setRefcount it n).tally = Function.update s.tally it (n, (s.tally it).2) := by
  funext x
  by_cases e : x = it
  · subst e
    simp [tally, setRefcount]
  · simp [tally, setRefcount, e]

theorem refcountIncr_tally : (s.refcountIncr it).2.tally =
    Function.update s.tally it ((s.tally it).1 + 1, (s.tally it).2) :=
  s.setRefcount_tally it _

theorem doItemRemove_tally : (s.doItemRemove it).tally =
    Function.update s.tally it (refDecr (s.tally it).1, (s.tally it).2) := by
  have h : (s.refcountDecr it).2.tally =
      Function.update s.tally it (refDecr (s.tally it).1, (s.tally it).2) :=
    s.setRefcount_tally it _
  unfold doItemRemove
  split_ifs
  · rw [(SameTally.freeItem _ it).tally, h]
  · exact h

theorem doItemRemove_itemLocks : (s.doItemRemove it).itemLocks = s.itemLocks := by
  unfold doItemRemove
  split_ifs
  · rw [(SameTally.freeItem _ it).itemLocks]
    rfl
  · rfl

theorem doItemUnlink_tally : (s.doItemUnlink it hv).tally =
    if (s.tally it).2 then Function.update s.tally it (refDecr (s.tally it).1, false) else s.tally := by
  have h : (s.unlinkCore it hv).tally =
      Function.update s.tally it ((s.tally it).1, false) := by
    obtain ⟨a, ha, -⟩ := (s.markUnlinked it).assocDelete_frame (s.heap.key it) hv
    rw [unlinkCore, ha]
    funext x
    by_cases e : x = it
    · subst e
      simp [tally, doItemUnlinkQ, markUnlinked, setFlags]
    · simp [tally, doItemUnlinkQ, markUnlinked, setFlags, e]
  unfold doItemUnlink
  by_cases hl : (s.flags it).linked = true
  · rw [if_pos hl, if_pos (show (s.tally it).2 = true from hl), doItemRemove_tally, h,
      Function.update_self, Function.update_idem]
  · rw [if_neg hl, if_neg (show ¬ (s.tally it).2 = true from hl)]

theorem doItemUnlink_itemLocks : (s.doItemUnlink it hv).itemLocks = s.itemLocks := by
  unfold doItemUnlink
  split_ifs
  · obtain ⟨a, ha, -⟩ := (s.markUnlinked it).assocDelete_frame (s.heap.key it) hv
    rw [doItemRemove_itemLocks, unlinkCore, ha]
    rfl
  · rfl

end Store

/-! ## Taking and giving back -/

/-- **A call has let go of all it took**: items that were unlinked have lost the reference of their
link, all others have their counts, and the item locks are the same. -/
structure LetGo (s t : Store) : Prop where
  tally : ∀ x, t.tally x = s.tally x ∨ (s.tally x).2 = true ∧ t.tally x = (refDecr (s.tally x).1, false)
  itemLocks : t.itemLocks = s.itemLocks

theorem SameTally.letGo {s t : Store} (h : SameTally s t) : LetGo s t :=
  ⟨fun x => .inl (by rw [h.tally]), h.itemLocks⟩

theorem LetGo.trans {s t u : Store} (h : LetGo s t) (h' : LetGo t u) : LetGo s u := by
  refine ⟨fun x => ?_, h'.itemLocks.trans h.itemLocks⟩
  rcases h.tally x with e | ⟨hl, e⟩
  · have := h'.tally x
    rwa [e] at this
  · refine .inr ⟨hl, ?_⟩
    rcases h'.tally x with e' | ⟨hl', -⟩
    · rw [e', e]
    · rw [e] at hl'
      cases hl'

/-- Since `s` the walk has taken the lock of `it` and a reference to it. -/
structure Holds (s t : Store) (it : Ptr) (lock : ℕ) : Prop where
  tally : t.tally = Function.update s.tally it ((s.tally it).1 + 1, (s.tally it).2)
  itemLocks : t.itemLocks = lock :: s.itemLocks

namespace Holds

variable {s t u : Store} {it : Ptr} {lock : ℕ}

theorem keep (h : Holds s t it lock) (h' : SameTally t u) : Holds s u it lock :=
  ⟨h'.tally.trans h.tally, h'.itemLocks.trans h.itemLocks⟩

/-- Reference and lock are given back. -/
theorem release (h : Holds s t it lock) : LetGo s ((t.doItemRemove it).tryLockUnlock lock) := by
  refine SameTally.letGo ⟨?_, ?_⟩
  · show (t.doItemRemove it).tally = s.tally
    rw [t.doItemRemove_tally, h.tally, Function.update_self, Function.update_idem, refDecr_succ]
    exact Function.update_eq_self it s.tally
  · show (t.doItemRemove it).itemLocks.erase lock = s.itemLocks
    rw [t.doItemRemove_itemLocks, h.itemLocks, List.erase_cons_head]

/-- The item is unlinked first. -/
theorem drop (h : Holds s t it lock) (hv : UInt32) :
    LetGo s (((t.doItemUnlink it hv).doItemRemove it).tryLockUnlock lock) := by
  have hit : t.tally it = ((s.tally it).1 + 1, (s.tally it).2) := by
    rw [h.tally, Function.update_self]
  refine ⟨fun x => ?_, ?_⟩
  · show ((t.doItemUnlink it hv).doItemRemove it).tally x = _ ∨ _ ∧
      ((t.doItemUnlink it hv).doItemRemove it).tally x = _
    rw [Store.doItemRemove_tally, Store.doItemUnlink_tally, hit]
    by_cases e : x = it
    · subst e
      cases hl : (s.tally x).2 with
      | true =>
        refine .inr ⟨rfl, ?_⟩
        simp [refDecr_succ]
      | false =>
        refine .inl ?_
        simp only [Bool.false_eq_true, if_false, Function.update_self]
        rw [hit, refDecr_succ, hl, ← hl]
    · refine .inl ?_
      rw [Function.update_of_ne e]
      split_ifs
      · rw [Function.update_of_ne e, h.tally, Function.update_of_ne e]
      · rw [h.tally, Function.update_of_ne e]
  · show ((t.doItemUnlink it hv).doItemRemove it).itemLocks.erase lock = s.itemLocks
    rw [Store.doItemRemove_itemLocks, Store.doItemUnlink_itemLocks, h.itemLocks,
      List.erase_cons_head]

/-- What follows the loop. -/
theorem pullFinish (h : Holds s t it lock) (st : LruStatus) : LetGo s (t.pullFinish it st lock) := by
  unfold Store.pullFinish
  dsimp only
  split_ifs
  · exact release (h.keep ⟨rfl, rfl⟩)
  · exact h.release

end Holds

/-! ## What happens to item locks -/

/-- What happens to item locks. -/
def CallEvent.ofItems (evs : List CallEvent) : List (LockEvent ℕ) := evs.filterMap fun
  | .mutex (.lock (.item l)) => some (.lock l)
  | .mutex (.unlock (.item l)) => some (.unlock l)
  | .mutex (.tryLock (.item l) ok) => some (.tryLock l ok)
  | _ => none

/-- The event, if it is one of an item lock. -/
def Mutex.itemEvent : LockEvent Mutex → Option (LockEvent ℕ)
  | .lock (.item l) => some (.lock l)
  | .unlock (.item l) => some (.unlock l)
  | .tryLock (.item l) ok => some (.tryLock l ok)
  | _ => none

namespace CallEvent

theorem ofItems_append (a b : List CallEvent) : ofItems (a ++ b) = ofItems a ++ ofItems b :=
  List.filterMap_append

theorem ofItems_eq (evs : List CallEvent) : ofItems evs = (mutexes evs).filterMap Mutex.itemEvent := by
  rw [ofItems, mutexes, List.filterMap_filterMap]
  congr 1
  funext ev
  cases ev with
  | assert a ok => rfl
  | mutex e =>
    cases e with
    | lock m => cases m <;> rfl
    | unlock m => cases m <;> rfl
    | tryLock m ok => cases m <;> rfl

theorem ofItems_of_mutexes {evs : List CallEvent} (h : mutexes evs = []) : ofItems evs = [] := by
  rw [ofItems_eq, h]
  rfl

theorem ofItems_unlock_cache (id : ℕ) (evs : List CallEvent) :
    ofItems (unlock (.cache id) :: evs) = ofItems evs := rfl

end CallEvent

namespace Store

open CallEvent

variable (s : Store) (it : Ptr) (hv : UInt32)

theorem ofItems_doItemUnlink : ofItems (s.doItemUnlinkEvents it hv) = [] := by
  rw [ofItems_eq, doItemUnlinkEvents]
  split_ifs
  · simp [Mutex.itemEvent]
  · rfl

theorem ofItems_drop : ofItems (s.dropEvents it hv) = [] := by
  rw [dropEvents, ofItems_append, ofItems_doItemUnlink, ofItems_of_mutexes (mutexes_doItemRemove _ it)]
  rfl

theorem ofItems_pullFinish (st : LruStatus) (lock : ℕ) :
    ofItems (s.pullFinishEvents it st lock) = [.unlock lock] := by
  rw [ofItems_eq, pullFinishEvents, mutexes_append, mutexes_append, mutexes_doItemRemove]
  split_ifs
  · rw [mutexes_itemLinkQ]
    rfl
  · rfl

end Store

/-! ## One node of the walk -/

/-- A visit that began with taking a lock in `s` gives everything back, here or after the loop. -/
def Store.PullOutcome.Closes (s : Store) (it : Ptr) (lock : ℕ) (evs : List CallEvent) :
    Store.PullOutcome → Prop
  | .skip => False
  | .next t _ => LetGo s t ∧ CallEvent.ofItems evs = [.unlock lock]
  | .stop t st _ l => l = lock ∧ LetGo s (t.pullFinish it st lock) ∧ CallEvent.ofItems evs = []

namespace Holds

open CallEvent Store.PullOutcome

variable {s t : Store} {it : Ptr} {lock : ℕ} (h : Holds s t it lock) (id : ℕ) {curLru : LruStatus}
  (totalChunks : UInt64) (doEvict : Bool) (hv : UInt32)

include h

theorem pullSwitch (hc : curLru = .warm ∨ curLru = .cold) :
    Closes s it lock (t.pullSwitchEvents id curLru totalChunks doEvict it hv lock)
      (t.pullSwitch id curLru totalChunks doEvict it hv lock) := by
  have hoff : ∀ f, Holds s ((t.bump id f).setFlags it { t.flags it with active := false }) it lock :=
    fun f => (h.keep (.bump t id f)).keep
      (.setFlags (t.bump id f) it (f := { t.flags it with active := false }) rfl)
  rcases hc with rfl | rfl
  · dsimp only [Store.pullSwitch, Store.pullSwitchEvents]
    split_ifs
    · exact ⟨rfl, ((h.keep (.bump t id _)).keep (.doItemUnlinkQ _ it false)).pullFinish .cold,
        ofItems_of_mutexes (Store.mutexes_doItemUnlinkQ _ it)⟩
    · refine ⟨release ((hoff _).keep (SameTally.doItemUpdateNolock _ it)), ?_⟩
      rw [ofItems_append, ofItems_append, ofItems_of_mutexes (Store.mutexes_doItemUpdateNolock _ it),
        ofItems_of_mutexes (Store.mutexes_doItemRemove _ it)]
      rfl
    · exact ⟨rfl, h.pullFinish .hot, rfl⟩
  · dsimp only [Store.pullSwitch, Store.pullSwitchEvents]
    split_ifs
    · exact ⟨rfl, h.pullFinish .hot, rfl⟩
    · exact ⟨rfl, (h.keep (SameTally.countEvicted t id it)).drop hv,
        Store.ofItems_doItemUnlink _ it hv⟩
    · exact ⟨rfl, ((hoff _).keep (.doItemUnlinkQ _ it false)).pullFinish .warm,
        ofItems_of_mutexes (Store.mutexes_doItemUnlinkQ _ it)⟩
    · exact ⟨rfl, h.pullFinish .hot, rfl⟩

theorem pullReferenced (hc : (curLru = .warm ∨ curLru = .cold) ∨ t.isReclaimable it) :
    Closes s it lock (t.pullReferencedEvents id curLru totalChunks doEvict it hv lock)
      (t.pullReferenced id curLru totalChunks doEvict it hv lock) := by
  unfold Store.pullReferenced Store.pullReferencedEvents
  split_ifs with hr
  · refine ⟨(h.keep (SameTally.countReclaimed t id it)).drop hv, ?_⟩
    rw [ofItems_append, Store.ofItems_drop]
    rfl
  · exact h.pullSwitch id totalChunks doEvict hv (hc.resolve_right hr)

end Holds

theorem pullLocked_closes {s t : Store} (it : Ptr) {lock : ℕ} (ht : t.tally = s.tally)
    (hl : t.itemLocks = lock :: s.itemLocks)
    (hrep : t.settings.tailRepairTime = 0) (id : ℕ) {curLru : LruStatus} (totalChunks : UInt64)
    (doEvict : Bool) (hv : UInt32)
    (hc : (curLru = .warm ∨ curLru = .cold) ∨ t.isReclaimable it) :
    Store.PullOutcome.Closes s it lock (t.pullLockedEvents id curLru totalChunks doEvict it hv lock)
      (t.pullLocked id curLru totalChunks doEvict it hv lock) := by
  have h : Holds s (t.refcountIncr it).2 it lock :=
    ⟨by rw [t.refcountIncr_tally, ht], hl⟩
  have hno : ∀ f, ¬ (((t.refcountIncr it).2.bump id f).settings.tailRepairTime ≠ 0 ∧
      ((t.refcountIncr it).2.bump id f).heap.time it +
        ((t.refcountIncr it).2.bump id f).settings.tailRepairTime <
          ((t.refcountIncr it).2.bump id f).now) := fun f hf => hf.1 hrep
  dsimp only [Store.pullLocked, Store.pullLockedEvents]
  rw [if_neg (hno _), if_neg (hno _)]
  split_ifs
  · exact (h.keep (.bump _ id _)).pullReferenced id totalChunks doEvict hv hc
  · exact h.pullReferenced id totalChunks doEvict hv hc

theorem tryLock_fresh (s : Store) (hv : UInt32) :
    (∃ e, s.tryLock hv = (none, { s with env := e })) ∨
      ∃ l e, l ∉ s.itemLocks ∧
        s.tryLock hv = (some l, { s with env := e, itemLocks := l :: s.itemLocks }) := by
  dsimp only [Store.tryLock]
  split_ifs with h
  · exact .inr ⟨_, _, h.2, rfl⟩
  · exact .inl ⟨_, rfl⟩

/-- The walk gets the lock of `it`, and finds it alive. -/
def Store.pullsLive (s : Store) (curHv : UInt32) (it : Ptr) : Bool :=
  !s.isCrawlerNode it && s.hv it ≠ curHv && (s.tryLock (s.hv it)).1.isSome && !s.isReclaimable it

/-- A visit to `it` has left nothing behind, or will not once the loop is left. -/
def Store.PullOutcome.Neutral (s : Store) (it : Ptr) (evs : List CallEvent) : Store.PullOutcome → Prop
  | .skip => CallEvent.ofItems evs = []
  | .next t _ => LetGo s t ∧ Disciplined s.itemLocks (CallEvent.ofItems evs)
  | .stop t st _ lock => LetGo s (t.pullFinish it st lock) ∧
      Disciplined s.itemLocks (CallEvent.ofItems evs ++ [.unlock lock])

/-- **One node of the walk.** -/
theorem pullItem_neutral (s : Store) (id : ℕ) {curLru : LruStatus} (totalChunks : UInt64)
    (doEvict : Bool) (curHv : UInt32) (it : Ptr) (hrep : s.settings.tailRepairTime = 0)
    (hc : (curLru = .warm ∨ curLru = .cold) ∨ s.pullsLive curHv it = false) :
    Store.PullOutcome.Neutral s it (s.pullItemEvents id curLru totalChunks doEvict curHv it)
      (s.pullItem id curLru totalChunks doEvict curHv it) := by
  unfold Store.pullItem Store.pullItemEvents
  split_ifs with hn hhv
  · rfl
  · exact ⟨(SameTally.refl s).letGo, .nil _⟩
  · obtain ⟨e, ht⟩ | ⟨l, e, hl, ht⟩ := tryLock_fresh s (s.hv it)
    · rw [ht]
      exact ⟨SameTally.letGo ⟨rfl, rfl⟩, .nil _⟩
    · have hlive : (curLru = .warm ∨ curLru = .cold) ∨ s.isReclaimable it := by
        refine hc.imp (fun e => e) fun hp => ?_
        simpa [Store.pullsLive, hn, hhv, ht] using hp
      rw [ht]
      dsimp only
      obtain ⟨u, hu⟩ : ∃ u : Store, u = { s with env := e, itemLocks := l :: s.itemLocks } := ⟨_, rfl⟩
      have hcl := pullLocked_closes (s := s) (t := u) it (by rw [hu]; rfl) (by rw [hu])
        (by rw [hu]; exact hrep) id totalChunks doEvict (u.hv it) (by rw [hu]; exact hlive)
      rw [← hu]
      generalize u.pullLocked id curLru totalChunks doEvict it (u.hv it) l = o at hcl ⊢
      generalize u.pullLockedEvents id curLru totalChunks doEvict it (u.hv it) l = evs at hcl ⊢
      have hev : CallEvent.ofItems (.mutex (.tryLock (.item l) true) :: evs) =
          .tryLock l true :: CallEvent.ofItems evs := rfl
      cases o with
      | skip => exact hcl.elim
      | next t n =>
        refine ⟨hcl.1, ?_⟩
        rw [hev, hcl.2]
        exact .tryBracket hl (.nil _)
      | stop t st n lock =>
        obtain ⟨rfl, hgo, hev'⟩ := hcl
        refine ⟨hgo, ?_⟩
        rw [hev, hev']
        exact .tryBracket hl (.nil _)

/-! ## The loop -/

/-- Along the walk no live item's lock is got. -/
def missesLive (id : ℕ) (curLru : LruStatus) (totalChunks : UInt64) (doEvict : Bool)
    (curHv : UInt32) : ℕ → ℕ → Store → Option Ptr → Bool
  | fuel + 1, tries + 1, s, some it =>
    !s.pullsLive curHv it && match s.pullItem id curLru totalChunks doEvict curHv it with
    | .skip => missesLive id curLru totalChunks doEvict curHv fuel (tries + 1) s (s.heap.prev it)
    | .next t _ => missesLive id curLru totalChunks doEvict curHv fuel tries t (s.heap.prev it)
    | .stop _ _ _ _ => true
  | _, _, _, _ => true

/-- **The loop**, by induction on the fuel. -/
theorem pullLoop_letGo (id : ℕ) {curLru : LruStatus} (totalChunks : UInt64) (doEvict : Bool)
    (curHv : UInt32) (fuel : ℕ) : ∀ (tries : ℕ) (s : Store) (search : Option Ptr) (removed : ℕ),
    s.settings.tailRepairTime = 0 →
    ((curLru = .warm ∨ curLru = .cold) ∨
      missesLive id curLru totalChunks doEvict curHv fuel tries s search = true) →
    LetGo s (Store.pullLoop id curLru totalChunks doEvict curHv fuel tries s search removed).2 ∧
      Disciplined s.itemLocks (CallEvent.ofItems
        (Store.pullLoopEvents id curLru totalChunks doEvict curHv fuel tries s search)) := by
  have hend : ∀ s : Store, LetGo s s ∧
      Disciplined s.itemLocks (CallEvent.ofItems [CallEvent.unlock (.cache id)]) := fun s =>
    ⟨(SameTally.refl s).letGo, .nil _⟩
  induction fuel with
  | zero => intro tries s search removed _ _; exact hend s
  | succ fuel ih =>
    intro tries s search removed hrep hc
    cases tries with
    | zero => exact hend s
    | succ tries =>
      cases search with
      | none => exact hend s
      | some it =>
        simp only [missesLive, Bool.and_eq_true, Bool.not_eq_true'] at hc
        have hset := (SameTable.refl s).pullItem id curLru totalChunks doEvict curHv it
        have hit := pullItem_neutral s id totalChunks doEvict curHv it hrep
          (hc.imp (fun e => e) fun e => e.1)
        rw [Store.pullLoop, Store.pullLoopEvents, CallEvent.ofItems_append]
        cases ho : s.pullItem id curLru totalChunks doEvict curHv it with
        | skip =>
          rw [ho] at hit hc
          obtain ⟨h1, h2⟩ := ih (tries + 1) s (s.heap.prev it) removed hrep
            (hc.imp (fun e => e) fun e => e.2)
          rw [show CallEvent.ofItems _ = [] from hit]
          exact ⟨h1, h2⟩
        | next t n =>
          rw [ho] at hit hc hset
          obtain ⟨h1, h2⟩ := ih tries t (s.heap.prev it) (removed + n)
            (by rw [SameTable.settings hset]; exact hrep) (hc.imp (fun e => e) fun e => e.2)
          rw [hit.1.itemLocks] at h2
          exact ⟨hit.1.trans h1, hit.2.append h2⟩
        | stop t st n lock =>
          rw [ho] at hit
          refine ⟨hit.1, ?_⟩
          rw [CallEvent.ofItems_unlock_cache, Store.ofItems_pullFinish]
          exact hit.2

/-- **Nothing is left behind** by a call that made `t` out of `s`, with the events `evs` of item
locks. -/
structure Neutral (s t : Store) (evs : List (LockEvent ℕ)) : Prop where
  linked : ∀ x, (t.flags x).linked = true → t.heap.refcount x = s.heap.refcount x
  unlinked : ∀ x, (s.flags x).linked = true → (t.flags x).linked = false →
    (t.heap.refcount x + 1) % 2 ^ 16 = s.heap.refcount x % 2 ^ 16
  released : ∀ l, evs.countP (LockEvent.takes l) = evs.countP (LockEvent.gives l)
  disciplined : Disciplined s.itemLocks evs
  itemLocks : t.itemLocks = s.itemLocks

theorem LetGo.neutral {s t : Store} {evs : List (LockEvent ℕ)} (h : LetGo s t)
    (hd : Disciplined s.itemLocks evs) : Neutral s t evs where
  linked x hx := by
    rcases h.tally x with e | ⟨-, e⟩
    · exact congrArg Prod.fst e
    · rw [show (t.flags x).linked = false from congrArg Prod.snd e] at hx
      cases hx
  unlinked x hx hx' := by
    rcases h.tally x with e | ⟨-, e⟩
    · rw [show (t.flags x).linked = (s.flags x).linked from congrArg Prod.snd e, hx] at hx'
      cases hx'
    · rw [show t.heap.refcount x = refDecr (s.heap.refcount x) from congrArg Prod.fst e]
      exact refDecr_mod _
  released := hd.balanced
  disciplined := hd
  itemLocks := h.itemLocks

/-- The small store with the maintainer thread on, and an item in the `HOT` queue of class 1 that expires
at the time 5. -/
def hotStore : Store :=
  let s := { smallWorld.store with
    settings := { smallWorld.store.settings with lruMaintainerThread := true } }
  (s.doItemAlloc (.byte 97) 0 5 3 0).2.doItemLink (.chunk 4192) 0

end Mdb
