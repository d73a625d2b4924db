import Mdb.Assoc.Handoff

/-!
# Is an expansion noticed?

The maintenance thread sleeps in `pthread_cond_wait` while there is nothing to move. Only
`AssocStartExpand` signals it; an insertion that expands the table does not.

* `RunPc`, `Store.runStep`: `AssocMaintainer::Run`, one access to the shared fields at a time;
* `WakeRun`, `WakeStep`: clients and the thread, interleaved, without spurious wake-ups;
* `expansion_noticed`: if every insertion that starts an expansion finds the thread listening, the
  thread never sleeps through an expansion, and its third move after the start at the latest is one
  of the migration loop;
* `expansion_unnoticed`: an insertion while the thread waits expands the table and wakes nobody.
-/

namespace Mdb

open Run

/-- Where `AssocMaintainer::Run` is. -/
inductive RunPc where
  /-- At the head of the bulk loop, in iteration `i`. -/
  | bulk (i : ℕ)
  /-- At `if (!expanding_)`. -/
  | test
  /-- At `started_expanding_ = false`. -/
  | clear
  /-- At the call of `pthread_cond_wait`. -/
  | enter
  /-- In `pthread_cond_wait`. -/
  | waiting (signalled : Bool)
  /-- Back from the wait, at `AssocExpand`. -/
  | woken
  deriving DecidableEq

/-- The next move of the thread, if it is not blocked. -/
def Store.runStep (s : Store) : RunPc → Option (RunPc × Store)
  | .bulk i =>
    if i < s.assoc.hashBulkMove ∧ s.assoc.expanding = true then some (.bulk (i + 1), s.migrateBucket)
    else some (.test, s)
  | .test => if s.assoc.expanding then some (.bulk 0, s) else some (.clear, s)
  | .clear => some (.enter, { s with assoc := { s.assoc with startedExpanding := false } })
  | .enter => some (.waiting false, s)
  | .waiting true => some (.woken, s)
  | .waiting false => none
  | .woken => some (.bulk 0, s.assocExpand)

/-- `pthread_cond_signal(&maintenance_cond_)`: it is lost unless the thread waits. -/
def RunPc.signal : RunPc → RunPc
  | .waiting _ => .waiting true
  | pc => pc

/-- Will the thread look at `expanding_`, or move buckets, before it next sleeps? -/
def RunPc.listening : RunPc → Bool
  | .bulk _ | .test | .waiting true | .woken => true
  | .clear | .enter | .waiting false => false

/-- The table with the thread's place; `rounds` counts the iterations of the migration loop. -/
structure WakeRun where
  store : Store
  pc : RunPc
  rounds : ℕ

/-- What happens next. -/
inductive WakeEvent where
  | insert (it : Ptr) (hv : UInt32)
  | delete (k : Key) (hv : UInt32)
  | startExpand
  | run
  deriving DecidableEq

/-- Is the thread's next move an iteration of the migration loop? -/
def RunPc.Migrates (a : Assoc) : RunPc → Prop
  | .bulk i => i < a.hashBulkMove ∧ a.expanding = true
  | _ => False

instance (a : Assoc) : (pc : RunPc) → Decidable (pc.Migrates a)
  | .bulk _ => inferInstanceAs (Decidable (_ ∧ _))
  | .test | .clear | .enter | .waiting _ | .woken => inferInstanceAs (Decidable False)

/-- One step of a client or of the thread. -/
inductive WakeStep : WakeRun → WakeEvent → WakeRun → Prop where
  | insert (r : WakeRun) (it : Ptr) (hv : UInt32) :
      WakeStep r (.insert it hv) { r with store := r.store.assocInsert it hv }
  | delete (r : WakeRun) (k : Key) (hv : UInt32) :
      WakeStep r (.delete k hv) { r with store := r.store.assocDelete k hv }
  | startExpand (r : WakeRun) :
      WakeStep r .startExpand { r with
        store := r.store.assocStartExpand
        pc := if r.store.assoc.startedExpanding then r.pc else r.pc.signal }
  | run (r : WakeRun) (pc : RunPc) (s : Store) (hstep : r.store.runStep r.pc = some (pc, s)) :
      WakeStep r .run ⟨s, pc, if r.pc.Migrates r.store.assoc then r.rounds + 1 else r.rounds⟩

/-- A table; the thread is about to enter its loop. -/
def WakeRun.Init (r : WakeRun) : Prop :=
  (∃ hashpower bulk, 1 ≤ bulk ∧ r.store.assoc = { Assoc.initial hashpower with hashBulkMove := bulk }) ∧
    r.pc = .bulk 0 ∧ r.rounds = 0

/-- **The lost wake-up**: an expansion is under way and the thread sleeps unsignalled. -/
def WakeRun.Lost (r : WakeRun) : Prop :=
  r.store.assoc.expanding = true ∧ r.pc = .waiting false

/-- **The condition**: an insertion that starts an expansion finds the thread listening. -/
def WakeRun.Attentive (r : WakeRun) : WakeEvent → Prop
  | .insert it hv => r.store.assoc.expanding = false →
      (r.store.assocInsert it hv).assoc.expanding = true → r.pc.listening = true
  | _ => True

/-- A step that meets the condition. -/
def AttentiveStep (r r' : WakeRun) : Prop := ∃ ev, WakeStep r ev r' ∧ r.Attentive ev

/-- Any step. -/
def WakeAnyStep (r r' : WakeRun) : Prop := ∃ ev, WakeStep r ev r'

/-! ## What the table's operations do to `expanding_` -/

namespace Store

variable (s : Store)

theorem assocExpand_bulk : s.assocExpand.assoc.hashBulkMove = s.assoc.hashBulkMove := by
  unfold assocExpand
  split_ifs <;> rfl

theorem assocExpand_expanding (he : s.assoc.expanding = true) :
    s.assocExpand.assoc.expanding = true := by
  unfold assocExpand
  split_ifs
  · rfl
  · exact he

theorem assocInsert_bulk (it : Ptr) (hv : UInt32) :
    (s.assocInsert it hv).assoc.hashBulkMove = s.assoc.hashBulkMove := by
  have hb : (s.assoc.insertChain it hv).hashBulkMove = s.assoc.hashBulkMove := by
    unfold Assoc.insertChain Assoc.setChain
    split <;> rfl
  dsimp only [assocInsert]
  split_ifs
  · rw [assocExpand_bulk]
    exact hb
  · exact hb

/-- An insertion does not end an expansion. -/
theorem assocInsert_expanding (it : Ptr) (hv : UInt32) (he : s.assoc.expanding = true) :
    (s.assocInsert it hv).assoc.expanding = true := by
  have hc : (s.assoc.insertChain it hv).expanding = true :=
    (insertChain_expanding s.assoc it hv).trans he
  dsimp only [assocInsert]
  rw [if_neg (fun ho => Bool.false_ne_true (ho.1.symm.trans hc))]
  exact hc

theorem assocDelete_assoc (k : Key) (hv : UInt32) :
    (s.assocDelete k hv).assoc.expanding = s.assoc.expanding ∧
      (s.assocDelete k hv).assoc.hashBulkMove = s.assoc.hashBulkMove := by
  unfold assocDelete
  split
  · exact ⟨rfl, rfl⟩
  · unfold Assoc.deleteChain Assoc.setChain
    split <;> exact ⟨rfl, rfl⟩

theorem assocStartExpand_assoc :
    s.assocStartExpand.assoc.expanding = s.assoc.expanding ∧
      s.assocStartExpand.assoc.hashBulkMove = s.assoc.hashBulkMove := by
  unfold assocStartExpand
  split_ifs <;> exact ⟨rfl, rfl⟩

theorem migrateBucket_bulk : s.migrateBucket.assoc.hashBulkMove = s.assoc.hashBulkMove := by
  unfold migrateBucket endExpansion tryLockUnlock
  split_ifs
  · obtain ⟨e, ht⟩ | ⟨l, e, ht⟩ := s.tryLock_cases (UInt32.ofNat s.assoc.expandBucket)
    · rw [ht]
    · rw [ht]
      dsimp only
      split_ifs <;> rfl
  · rfl

theorem runStep_bulk {pc pc' : RunPc} {t : Store} (h : s.runStep pc = some (pc', t)) :
    t.assoc.hashBulkMove = s.assoc.hashBulkMove := by
  cases pc with
  | bulk i =>
    simp only [runStep] at h
    split_ifs at h <;> cases h
    · exact s.migrateBucket_bulk
    · rfl
  | test => simp only [runStep] at h; split_ifs at h <;> cases h <;> rfl
  | clear | enter => cases h; rfl
  | waiting b => cases b <;> cases h; rfl
  | woken => cases h; exact s.assocExpand_bulk

end Store

/-! ## Safety -/

/-- What every attentive run keeps: during an expansion the thread is listening. -/
structure WakeRun.Awake (r : WakeRun) : Prop where
  listens : r.store.assoc.expanding = true → r.pc.listening = true
  bulk_pos : 1 ≤ r.store.assoc.hashBulkMove

theorem WakeRun.Init.awake {r : WakeRun} (h : r.Init) : r.Awake := by
  obtain ⟨⟨hashpower, bulk, hb, ha⟩, hpc, -⟩ := h
  refine ⟨fun _ => by rw [hpc]; rfl, ?_⟩
  rw [ha]
  exact hb

theorem RunPc.listening_signal (pc : RunPc) (h : pc.listening = true) : pc.signal.listening = true := by
  cases pc with
  | waiting b => rfl
  | bulk | test | clear | enter | woken => exact h

theorem WakeRun.Awake.step {r r' : WakeRun} {ev : WakeEvent} (h : r.Awake) (hs : WakeStep r ev r')
    (ha : r.Attentive ev) : r'.Awake := by
  cases hs with
  | insert it hv =>
    refine ⟨fun he => ?_, (r.store.assocInsert_bulk it hv).symm ▸ h.bulk_pos⟩
    cases hb : r.store.assoc.expanding with
    | true => exact h.listens hb
    | false => exact ha hb he
  | delete k hv =>
    have hd := r.store.assocDelete_assoc k hv
    exact ⟨fun he => h.listens (hd.1 ▸ he), hd.2.symm ▸ h.bulk_pos⟩
  | startExpand =>
    have hd := r.store.assocStartExpand_assoc
    refine ⟨fun he => ?_, hd.2.symm ▸ h.bulk_pos⟩
    have hl := h.listens (hd.1 ▸ he)
    dsimp only
    split_ifs
    · exact hl
    · exact r.pc.listening_signal hl
  | run pc s hstep =>
    refine ⟨fun he => ?_, (r.store.runStep_bulk hstep).symm ▸ h.bulk_pos⟩
    -- the thread stops listening only by finding `expanding_` false
    cases hpc : r.pc with
    | bulk i =>
      rw [hpc] at hstep
      simp only [Store.runStep] at hstep
      split_ifs at hstep <;> cases hstep <;> rfl
    | test =>
      rw [hpc] at hstep
      simp only [Store.runStep] at hstep
      split_ifs at hstep with hx <;> cases hstep
      · rfl
      · exact absurd he hx
    | clear | enter =>
      rw [hpc] at hstep
      cases hstep
      exact absurd (hpc ▸ h.listens he) (by decide)
    | waiting b =>
      rw [hpc] at hstep
      cases b <;> cases hstep
      rfl
    | woken =>
      rw [hpc] at hstep
      cases hstep
      rfl

/-! ## Progress -/

/-- How many moves a listening thread makes before one of the migration loop. -/
def RunPc.lag (bulk : ℕ) : RunPc → ℕ
  | .bulk i => if i < bulk then 0 else 2
  | .test | .woken => 1
  | .clear | .enter | .waiting _ => 2

theorem RunPc.lag_le (bulk : ℕ) (pc : RunPc) : pc.lag bulk ≤ 2 := by
  cases pc with
  | bulk i =>
    simp only [RunPc.lag]
    split_ifs <;> omega
  | test | clear | enter | waiting | woken => simp [RunPc.lag]

theorem RunPc.lag_signal (bulk : ℕ) (pc : RunPc) : pc.signal.lag bulk = pc.lag bulk := by
  cases pc <;> rfl

def WakeRun.lag (r : WakeRun) : ℕ := r.pc.lag r.store.assoc.hashBulkMove

/-- A move of the thread during an expansion is one of the migration loop, or brings it nearer. -/
theorem WakeRun.Awake.run_progress {r : WakeRun} {pc : RunPc} {s : Store} (h : r.Awake)
    (he : r.store.assoc.expanding = true) (hstep : r.store.runStep r.pc = some (pc, s)) :
    r.pc.Migrates r.store.assoc ∨ s.assoc.expanding = true ∧
      pc.lag s.assoc.hashBulkMove + 1 ≤ r.lag := by
  have hl := h.listens he
  have hb := h.bulk_pos
  unfold WakeRun.lag
  cases hpc : r.pc with
  | bulk i =>
    rw [hpc] at hstep
    by_cases hi : i < r.store.assoc.hashBulkMove
    · exact .inl ⟨hi, he⟩
    · rw [Store.runStep, if_neg fun hc => hi hc.1] at hstep
      cases hstep
      refine .inr ⟨he, ?_⟩
      simp [RunPc.lag, hi]
  | test =>
    rw [hpc, Store.runStep, if_pos he] at hstep
    cases hstep
    refine .inr ⟨he, ?_⟩
    simp [RunPc.lag, Nat.pos_iff_ne_zero.mp hb]
  | woken =>
    rw [hpc] at hstep
    cases hstep
    refine .inr ⟨r.store.assocExpand_expanding he, ?_⟩
    rw [r.store.assocExpand_bulk]
    simp [RunPc.lag, Nat.pos_iff_ne_zero.mp hb]
  | waiting b =>
    rw [hpc] at hstep
    cases b <;> cases hstep
    exact .inr ⟨he, le_rfl⟩
  | clear | enter => exact absurd (hpc ▸ hl) (by decide)

/-- During an expansion a step of a client leaves the thread as near to the migration loop as it
was. -/
theorem WakeRun.Awake.progress {r r' : WakeRun} {ev : WakeEvent} (h : r.Awake)
    (he : r.store.assoc.expanding = true) (hs : WakeStep r ev r') :
    r.rounds < r'.rounds ∨ r'.rounds = r.rounds ∧ r'.store.assoc.expanding = true ∧
      r'.lag + [ev].count .run ≤ r.lag := by
  cases hs with
  | insert it hv =>
    refine .inr ⟨rfl, r.store.assocInsert_expanding it hv he, ?_⟩
    simp [WakeRun.lag, r.store.assocInsert_bulk it hv]
  | delete k hv =>
    have hd := r.store.assocDelete_assoc k hv
    refine .inr ⟨rfl, hd.1.trans he, ?_⟩
    simp [WakeRun.lag, hd.2]
  | startExpand =>
    have hd := r.store.assocStartExpand_assoc
    refine .inr ⟨rfl, hd.1.trans he, ?_⟩
    simp only [WakeRun.lag, hd.2]
    split_ifs
    · simp
    · simp [RunPc.lag_signal]
  | run pc s hstep =>
    obtain hm | ⟨hx, hlag⟩ := h.run_progress he hstep
    · exact .inl (by simp [hm])
    · by_cases hm : r.pc.Migrates r.store.assoc
      · exact .inl (by simp [hm])
      · exact .inr ⟨by simp [hm], hx, by simpa [WakeRun.lag] using hlag⟩

theorem WakeStep.rounds_le {r r' : WakeRun} {ev : WakeEvent} (hs : WakeStep r ev r') :
    r.rounds ≤ r'.rounds := by
  cases hs with
  | run pc s hstep =>
    dsimp only
    split_ifs
    · exact Nat.le_succ _
    · exact le_rfl
  | insert | delete | startExpand => exact le_rfl

theorem rounds_le_of_steps {r r' : WakeRun} {evs : List WakeEvent} (hs : Steps WakeStep r evs r') :
    r.rounds ≤ r'.rounds := by
  induction hs with
  | refl => exact le_rfl
  | head ha _ ih => exact ha.rounds_le.trans ih

/-- During an expansion every run with more moves of the thread than its lag has one of the
migration loop among them. -/
theorem WakeRun.Awake.taken_up {r r' : WakeRun} {evs : List WakeEvent} (h : r.Awake)
    (he : r.store.assoc.expanding = true) (hs : Steps WakeStep r evs r')
    (hlag : r.lag < evs.count .run) : r.rounds < r'.rounds := by
  induction hs with
  | refl => exact absurd hlag (by simp)
  | @head r t u ev evs ha hr ih =>
    obtain hlt | ⟨hrounds, he', hlag'⟩ := h.progress he ha
    · exact hlt.trans_le (rounds_le_of_steps hr)
    · -- while the table is expanding no insertion can start an expansion
      have hatt : r.Attentive ev := by
        cases ev with
        | insert it hv => exact fun hf => absurd (he.symm.trans hf) (by decide)
        | delete | startExpand | run => trivial
      have hcount : (ev :: evs).count .run = [ev].count .run + evs.count .run := by
        rw [← List.count_append]
        rfl
      rw [← hrounds]
      exact ih (h.step ha hatt) he' (by omega)

/-! ## The main results -/

/-- **An attentive run loses no wake-up**: in no state reached does the thread sleep unsignalled
during an expansion, and whatever happens next, of three further moves of the thread one is an
iteration of the migration loop. -/
theorem expansion_noticed {r : WakeRun} (h : Reach WakeRun.Init AttentiveStep r) :
    ¬ r.Lost ∧ (r.store.assoc.expanding = true → (r.store.runStep r.pc).isSome ∧
      ∀ evs r', Steps WakeStep r evs r' → 3 ≤ evs.count .run → r.rounds < r'.rounds) := by
  have hawake : r.Awake :=
    h.invariant (fun _ h0 => h0.awake) fun _ _ hi ⟨_, hs, ha⟩ => hi.step hs ha
  refine ⟨fun hlost => ?_, fun he => ⟨?_, fun evs r' hs h3 => ?_⟩⟩
  · exact absurd (hlost.2 ▸ hawake.listens hlost.1) (by decide)
  · have hl := hawake.listens he
    cases hpc : r.pc with
    | bulk i => simp only [Store.runStep]; split_ifs <;> rfl
    | test => simp only [Store.runStep]; split_ifs; rfl
    | waiting b => cases b with
      | true => rfl
      | false => exact absurd (hpc ▸ hl) (by decide)
    | clear | enter | woken => rfl
  · have hlag : r.lag ≤ 2 := RunPc.lag_le _ _
    exact hawake.taken_up he hs (by omega)

/-- The table of two buckets, with the thread about to enter its loop. -/
def sleepyTable : WakeRun := ⟨smallTable.store, .bulk 0, 0⟩

theorem sleepyTable_init : sleepyTable.Init := ⟨⟨1, 1, le_rfl, rfl⟩, rfl, rfl⟩

/-- An attentive run: four insertions before the thread looks at `expanding_`. -/
theorem expansion_noticed_four : ∃ r : WakeRun, Reach WakeRun.Init AttentiveStep r ∧
    r.store.assoc.expanding = true ∧ ¬ r.Lost ∧ (r.store.assoc.expanding = true →
      (r.store.runStep r.pc).isSome ∧
      ∀ evs r', Steps WakeStep r evs r' → 3 ≤ evs.count .run → r.rounds < r'.rounds) := by
  have h0 : Reach WakeRun.Init AttentiveStep sleepyTable := .start sleepyTable_init
  have h1 := h0.next ⟨_, .insert _ (.chunk 1) 0, fun _ _ => rfl⟩
  have h2 := h1.next ⟨_, .insert _ (.chunk 2) 0, fun _ _ => rfl⟩
  have h3 := h2.next ⟨_, .insert _ (.chunk 3) 0, fun _ _ => rfl⟩
  have h4 := h3.next ⟨_, .insert _ (.chunk 4) 0, fun _ _ => rfl⟩
  exact ⟨_, h4, by decide, expansion_noticed h4⟩

/-- **An insertion wakes nobody**: the thread has gone to wait, the fourth insertion starts an
expansion, and the thread is still waiting, unsignalled. -/
theorem expansion_unnoticed : ∃ r : WakeRun, Reach WakeRun.Init WakeAnyStep r ∧ r.Lost := by
  have h0 : Reach WakeRun.Init WakeAnyStep sleepyTable := .start sleepyTable_init
  have h1 := h0.next ⟨_, .run _ .test _ rfl⟩
  have h2 := h1.next ⟨_, .run _ .clear _ rfl⟩
  have h3 := h2.next ⟨_, .run _ .enter _ rfl⟩
  have h4 := h3.next ⟨_, .run _ (.waiting false) _ rfl⟩
  have h5 := h4.next ⟨_, .insert _ (.chunk 1) 0⟩
  have h6 := h5.next ⟨_, .insert _ (.chunk 2) 0⟩
  have h7 := h6.next ⟨_, .insert _ (.chunk 3) 0⟩
  have h8 := h7.next ⟨_, .insert _ (.chunk 4) 0⟩
  exact ⟨_, h8, by decide, rfl⟩

end Mdb
