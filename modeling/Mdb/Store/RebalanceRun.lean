import Mdb.Slabs.Automove
import Mdb.Store.Rebalance

/-!
# The rebalancing threads

`SlabsMaintainer::Run` and other callers ask for a page to be moved, `SlabsRebalancer::Run` is to move
it, and the hash table's thread pauses the rebalancer while it expands the table. They share
`slabs_rebalance_lock_`, `g_slab_rebalance_signal` and `g_slab_rebal`.

* `RebalPc`, `Rebalancing`: where the threads are, and what they share;
* `slabsReassign`, `maintainerRound`, `rebalanceTurn`: what they do;
* `RebalEvent`, `RebalStep`: in any order; `RebalStep.effect`: what a step can do to the shared fields;
* **`rebalance_requests`**: at most one request is ever granted, its classes stay where they are left,
  and no page is ever moved;
* **`rebalancer_hangs`**: once the rebalancer has locked `slabs_rebalance_lock_` and is to stop, or has
  something to do, nobody else ever gets the lock.
-/

namespace Mdb

open Run

/-! ## The threads -/

/-- Where `SlabsRebalancer::Run` is. -/
inductive RebalPc where
  /-- The thread has not been started. -/
  | off
  /-- At `pthread_mutex_lock(&slabs_rebalance_lock_)`. -/
  | enter
  /-- At the head of the loop, with the lock held. -/
  | loop (wasBusy : ℕ)
  /-- In `pthread_cond_wait`. -/
  | waiting (wasBusy : ℕ)
  /-- `Run` has returned. It does not unlock. -/
  | exited
  deriving DecidableEq

/-- The threads that keep `slabs_rebalance_lock_` for a while. -/
inductive LockOwner where
  | rebalancer
  | assocMaintainer
  deriving DecidableEq

/-- **What the threads share.** `slab` is `g_slab_rebal` without its classes, which `req` has; `NULL` is
the address 0. `running` is `slabs_rebalancer_running_`. -/
structure Rebalancing where
  store : Store
  slab : Slab
  req : Reassigner
  automove : AutomoveRun
  running : Bool
  pc : RebalPc
  owner : Option LockOwner

/-- `SlabRebalanceStart()`. -/
def slabRebalanceStart : ℤ := 0

namespace Rebalancing

variable (q : Rebalancing)

/-- `SlabsReassign(src, dst)`. -/
def slabsReassign (src dst : ℤ) : ReassignResultType × Rebalancing :=
  if q.owner ≠ none then (.running, q)
  else
    let d := q.req.doSlabsReassign q.store.slabs src dst
    (d.1, { q with req := d.2 })

/-- What `SlabAutomoveDecision` finds; `evicted` is what its array held before. -/
def round (evicted : ℕ → UInt64) : Round :=
  ⟨q.store.now, itemStatsEvictions q.store.itemStats evicted, fun i => (q.store.slabs.slabclass i).slabs⟩

/-- A round of `SlabsMaintainer::Run` with `slab_automove` on: what it asks for, the answer, which it
does not look at, and the state. -/
def maintainerRound (evicted : ℕ → UInt64) : Option (ℕ × ℕ × ReassignResultType) × Rebalancing :=
  let d := q.automove.call q.store.slabs.powerLargest (q.round evicted)
  let q := { q with automove := d.2 }
  match d.1 with
  | none => (none, q)
  | some (src, dst) =>
    let a := q.slabsReassign src dst
    (some (src, dst, a.1), a.2)

/-- The first half of the loop's body in `SlabsRebalancer::Run`: whether a page was worked on, `was_busy`
and the state. -/
def rebalanceWork (slabBulkCheck wasBusy : ℕ) : Bool × ℕ × Rebalancing :=
  if q.req.signal = 1 then
    (false, 0, if slabRebalanceStart < 0 then { q with req := { q.req with signal := 0 } } else q)
  else if q.req.signal ≠ 0 ∧ q.slab.slabStart ≠ 0 then
    let m := q.store.slabsRebalancerMove slabBulkCheck { q.slab with sClsid := q.req.sClsid.toNat }
    (true, m.1, { q with slab := m.2.1, store := m.2.2 })
  else (false, wasBusy, q)

/-- The loop's body. `SlabsRebalanceFinish()` is empty; without a request the thread waits. -/
def rebalanceTurn (slabBulkCheck wasBusy : ℕ) : Bool × Rebalancing :=
  let w := q.rebalanceWork slabBulkCheck wasBusy
  (w.1, if w.2.2.req.signal = 0 then { w.2.2 with pc := .waiting w.2.1, owner := none }
    else { w.2.2 with pc := .loop w.2.1 })

end Rebalancing

/-- What happens. -/
inductive RebalEvent where
  /-- Clients and other threads use the store. -/
  | work
  /-- A round of `SlabsMaintainer::Run`. -/
  | round (asked : Option (ℕ × ℕ × ReassignResultType))
  /-- Another call of `SlabsReassign`. -/
  | reassign (src dst : ℤ) (answer : ReassignResultType)
  /-- `PauseSlabsRebalancer()` returns. -/
  | pause
  | resume
  /-- `SlabsRebalancer::Start()`. -/
  | spawn
  /-- The thread gets the lock, at first or after a wait. -/
  | lock
  /-- It goes once through its loop, and works on a page or not. -/
  | turn (moved : Bool)
  | exit
  /-- `SlabsManager::Stop()` has set its flags. -/
  | stop
  deriving DecidableEq

/-- A request is granted. -/
def RebalEvent.grants : RebalEvent → Bool
  | .round (some (_, _, .ok)) | .reassign _ _ .ok => true
  | _ => false

/-- **One step of the threads.** `SlabsReassign` finds the lock taken also while another call of it is
inside; `pthread_cond_wait` may return without a signal; the store only gets more pages. -/
inductive RebalStep (slabBulkCheck : ℕ) : Rebalancing → RebalEvent → Rebalancing → Prop where
  | work (q : Rebalancing) (s : Store) (hp : s.slabs.powerLargest = q.store.slabs.powerLargest)
      (hs : ∀ c, (q.store.slabs.slabclass c).slabs ≤ (s.slabs.slabclass c).slabs) :
      RebalStep slabBulkCheck q .work { q with store := s }
  | round (q : Rebalancing) (evicted : ℕ → UInt64) :
      RebalStep slabBulkCheck q (.round (q.maintainerRound evicted).1) (q.maintainerRound evicted).2
  | reassign (q : Rebalancing) (src dst : ℤ) :
      RebalStep slabBulkCheck q (.reassign src dst (q.slabsReassign src dst).1)
        (q.slabsReassign src dst).2
  | busy (q : Rebalancing) (src dst : ℤ) :
      RebalStep slabBulkCheck q (.reassign src dst .running) q
  | pause (q : Rebalancing) (h : q.owner = none) :
      RebalStep slabBulkCheck q .pause { q with owner := some .assocMaintainer }
  | resume (q : Rebalancing) (h : q.owner = some .assocMaintainer) :
      RebalStep slabBulkCheck q .resume { q with owner := none }
  | spawn (q : Rebalancing) (h : q.pc = .off) : RebalStep slabBulkCheck q .spawn { q with pc := .enter }
  | enter (q : Rebalancing) (h : q.pc = .enter) (ho : q.owner = none) :
      RebalStep slabBulkCheck q .lock { q with pc := .loop 0, owner := some .rebalancer }
  | wake (q : Rebalancing) (wasBusy : ℕ) (h : q.pc = .waiting wasBusy) (ho : q.owner = none) :
      RebalStep slabBulkCheck q .lock { q with pc := .loop wasBusy, owner := some .rebalancer }
  | turn (q : Rebalancing) (wasBusy : ℕ) (h : q.pc = .loop wasBusy) (hr : q.running = true) :
      RebalStep slabBulkCheck q (.turn (q.rebalanceTurn slabBulkCheck wasBusy).1)
        (q.rebalanceTurn slabBulkCheck wasBusy).2
  | exit (q : Rebalancing) (wasBusy : ℕ) (h : q.pc = .loop wasBusy) (hr : q.running = false) :
      RebalStep slabBulkCheck q .exit { q with pc := .exited }
  | stop (q : Rebalancing) (h : q.owner = none) :
      RebalStep slabBulkCheck q .stop { q with running := false }

/-- Nothing has been asked for and no thread runs. -/
structure Rebalancing.Init (q : Rebalancing) : Prop where
  signal : q.req.signal = 0
  cur : q.req.cur ≤ q.store.slabs.powerLargest
  slabStart : q.slab.slabStart = 0
  pc : q.pc = .off
  owner : q.owner = none

/-! ## What a step can do -/

variable {n : ℕ} {q q' : Rebalancing} {ev : RebalEvent}

/-- The request that is left names two classes, and the first has a page to spare. -/
def Rebalancing.Asks (q : Rebalancing) : Prop :=
  q.store.slabs.IsClass q.req.sClsid ∧ q.store.slabs.IsClass q.req.dClsid ∧
    q.req.sClsid ≠ q.req.dClsid ∧ 2 ≤ (q.store.slabs.slabclass q.req.sClsid.toNat).slabs

/-- **A call of `SlabsReassign`**: it is granted, and there was no request; or only the cursor moves. -/
theorem slabsReassign_cases (hc : q.req.cur ≤ q.store.slabs.powerLargest) (src dst : ℤ) :
    (∃ c cur, q.owner = none ∧ q.req.signal = 0 ∧ cur ≤ q.store.slabs.powerLargest ∧
      q.slabsReassign src dst = (.ok, { q with req := ⟨1, c, dst, cur⟩ }) ∧
      Rebalancing.Asks { q with req := ⟨1, c, dst, cur⟩ }) ∨
    ∃ res cur, res ≠ .ok ∧ cur ≤ q.store.slabs.powerLargest ∧
      q.slabsReassign src dst = (res, { q with req := { q.req with cur := cur } }) := by
  unfold Rebalancing.slabsReassign
  by_cases ho : q.owner ≠ none
  · rw [if_pos ho]
    exact .inr ⟨.running, q.req.cur, by decide, hc, rfl⟩
  rw [if_neg ho]
  dsimp only
  rcases Reassigner.doSlabsReassign_spec hc src dst with
    ⟨hg, c, cur, hcl, hne, hle, he⟩ | ⟨-, res, cur, hres, hle, he⟩
  · have hpages := (Reassigner.grants_iff hc).mp hg
    have hsrc : c = (q.req.source q.store.slabs src dst).1 := by
      have h1 := he
      unfold Reassigner.doSlabsReassign at h1
      dsimp only at h1
      split_ifs at h1
      · exact absurd (congrArg Prod.fst h1) (by simp)
      · exact absurd (congrArg Prod.fst h1) (by simp)
      · exact absurd (congrArg Prod.fst h1) (by simp)
      · exact absurd (congrArg Prod.fst h1) (by simp)
      · exact (congrArg (fun p => p.2.sClsid) h1).symm
    rw [he]
    refine .inl ⟨c, cur, not_not.mp ho, hg.1, hle, rfl, hcl, hg.2.2.1, hne, ?_⟩
    show 2 ≤ (q.store.slabs.slabclass c.toNat).slabs
    rw [hsrc]
    exact hpages.2.2.2.2
  · rw [he]
    exact .inr ⟨res, cur, hres, hle, rfl⟩

/-- No page has been set up, so none is worked on. -/
theorem rebalanceWork_eq (hs : q.slab.slabStart = 0) (wasBusy : ℕ) :
    ∃ b, q.rebalanceWork n wasBusy = (false, b, q) := by
  unfold Rebalancing.rebalanceWork
  rw [if_neg (fun h => h.2 hs : ¬ (q.req.signal ≠ 0 ∧ q.slab.slabStart ≠ 0))]
  split_ifs with h1 h2
  · exact absurd h2 (by decide)
  · exact ⟨0, rfl⟩
  · exact ⟨wasBusy, rfl⟩

/-- What a step has done to the request. -/
structure Effect (q : Rebalancing) (ev : RebalEvent) (q' : Rebalancing) : Prop where
  slabStart : q'.slab.slabStart = 0
  cur : q'.req.cur ≤ q'.store.slabs.powerLargest
  moved : ev ≠ .turn true
  request : ev.grants = true ∧ q.owner = none ∧ q.req.signal = 0 ∧ q'.req.signal = 1 ∧ q'.Asks ∨
    ev.grants = false ∧ q'.req.signal = q.req.signal ∧ (q.Asks → q'.Asks)

/-- A step that leaves the request and the classes as they are. -/
theorem Effect.of_same (hs : q'.slab.slabStart = 0) (hc : q.req.cur ≤ q.store.slabs.powerLargest)
    (hst : q'.store = q.store) (hr : q'.req = q.req) (hm : ev ≠ .turn true) (hg : ev.grants = false) :
    Effect q ev q' := by
  refine ⟨hs, by rw [hr, hst]; exact hc, hm, .inr ⟨hg, by rw [hr], fun ha => ?_⟩⟩
  unfold Rebalancing.Asks at ha ⊢
  rwa [hr, hst]

/-- A call of `SlabsReassign`, as an event `ev` that tells the answer. -/
theorem Effect.of_reassign (q : Rebalancing) (ev : RebalEvent) (hs : q.slab.slabStart = 0)
    (hc : q.req.cur ≤ q.store.slabs.powerLargest) (src dst : ℤ) (hm : ev ≠ .turn true)
    (hg : ev.grants = decide ((q.slabsReassign src dst).1 = .ok)) :
    Effect q ev (q.slabsReassign src dst).2 := by
  rcases slabsReassign_cases hc src dst with ⟨c, cur, ho, h0, hle, he, ha⟩ | ⟨res, cur, hres, hle, he⟩
  · rw [he] at hg ⊢
    exact ⟨hs, hle, hm, .inl ⟨by simpa using hg, ho, h0, rfl, ha⟩⟩
  · rw [he] at hg ⊢
    exact ⟨hs, hle, hm, .inr ⟨by simpa [hres] using hg, rfl, fun ha => ha⟩⟩

/-- **What a step can do** to the request and the page that are shared. -/
theorem RebalStep.effect (h : RebalStep n q ev q') (hs : q.slab.slabStart = 0)
    (hc : q.req.cur ≤ q.store.slabs.powerLargest) : Effect q ev q' := by
  cases h with
  | work s hp hpages =>
    refine ⟨hs, by rw [hp]; exact hc, by decide, .inr ⟨rfl, rfl, fun ha => ?_⟩⟩
    unfold Rebalancing.Asks Slabs.IsClass at ha ⊢
    dsimp only
    rw [hp]
    exact ⟨ha.1, ha.2.1, ha.2.2.1, ha.2.2.2.trans (hpages _)⟩
  | round evicted =>
    unfold Rebalancing.maintainerRound
    dsimp only
    generalize q.automove.call q.store.slabs.powerLargest (q.round evicted) = d
    obtain ⟨_ | ⟨src, dst⟩, a⟩ := d
    · exact .of_same hs hc rfl rfl nofun rfl
    · have hf := Effect.of_reassign { q with automove := a }
        (.round (some (src, dst, (Rebalancing.slabsReassign { q with automove := a } src dst).1)))
        hs hc src dst nofun
        (by cases (Rebalancing.slabsReassign { q with automove := a } src dst).1 <;> rfl)
      exact ⟨hf.slabStart, hf.cur, hf.moved, hf.request⟩
  | reassign src dst =>
    exact .of_reassign q _ hs hc src dst nofun (by cases (q.slabsReassign src dst).1 <;> rfl)
  | turn wasBusy hpc hr =>
    obtain ⟨b, he⟩ := rebalanceWork_eq (n := n) hs wasBusy
    unfold Rebalancing.rebalanceTurn
    rw [he]
    dsimp only
    split_ifs
    · exact .of_same hs hc rfl rfl (by decide) rfl
    · exact .of_same hs hc rfl rfl (by decide) rfl
  | _ => exact .of_same hs hc rfl rfl nofun rfl

/-! ## Runs -/

/-- What holds after the events `evs`. -/
structure Rebalanced (evs : List RebalEvent) (q : Rebalancing) : Prop where
  slabStart : q.slab.slabStart = 0
  cur : q.req.cur ≤ q.store.slabs.powerLargest
  moved : RebalEvent.turn true ∉ evs
  request : evs.countP RebalEvent.grants = 0 ∧ q.req.signal = 0 ∨
    evs.countP RebalEvent.grants = 1 ∧ q.req.signal = 1 ∧ q.Asks

theorem Rebalanced.step {evs : List RebalEvent} (h : Rebalanced evs q) (hs : RebalStep n q ev q') :
    Rebalanced (evs ++ [ev]) q' := by
  have ef := hs.effect h.slabStart h.cur
  refine ⟨ef.slabStart, ef.cur, ?_, ?_⟩
  · rw [List.mem_append, List.mem_singleton]
    exact fun hm => hm.elim h.moved fun e => ef.moved e.symm
  · rw [List.countP_append, List.countP_singleton]
    rcases ef.request with ⟨hg, -, h0, h1, ha⟩ | ⟨hg, he, ha⟩
    · rcases h.request with ⟨hn, -⟩ | ⟨-, h1', -⟩
      · exact .inr ⟨by rw [hn, hg]; rfl, h1, ha⟩
      · rw [h0] at h1'; cases h1'
    · rw [hg, he]
      exact h.request.imp (fun hr => hr) fun hr => ⟨hr.1, hr.2.1, ha hr.2.2⟩

theorem Rebalancing.Init.rebalanced (h : q.Init) : Rebalanced [] q :=
  ⟨h.slabStart, h.cur, nofun, .inl ⟨rfl, h.signal⟩⟩

theorem Rebalanced.of_steps {evs : List RebalEvent} (h0 : q.Init) (h : Steps (RebalStep n) q evs q') :
    Rebalanced evs q' :=
  h.history h0.rebalanced fun _ _ _ _ hI hs => hI.step hs

/-- **Requests and pages.** Whatever the threads do, and whether or not the rebalancer is let run: at
most one request is ever granted; from then on the signal is set and the request names two classes, of
which the first has a page to spare; and `SlabsRebalancerMove` is never called. -/
theorem rebalance_requests {evs : List RebalEvent} (h0 : q.Init) (h : Steps (RebalStep n) q evs q') :
    RebalEvent.turn true ∉ evs ∧ evs.countP RebalEvent.grants ≤ 1 ∧
      (q'.req.signal = 1 ∧ q'.Asks ↔ evs.countP RebalEvent.grants = 1) := by
  have hr := Rebalanced.of_steps h0 h
  refine ⟨hr.moved, ?_, ?_⟩
  · rcases hr.request with ⟨e, -⟩ | ⟨e, -⟩ <;> omega
  · rcases hr.request with ⟨e, h1⟩ | ⟨e, h1⟩
    · rw [e, h1]; simp
    · exact ⟨fun _ => e, fun _ => h1⟩

/-! ## The lock -/

/-- The rebalancer has the lock and will not give it back: it is to return, or it has a request to
look at again and again. -/
structure Hung (q : Rebalancing) : Prop where
  owner : q.owner = some .rebalancer
  pc : q.pc = .exited ∨ ∃ wasBusy, q.pc = .loop wasBusy
  busy : q.running = false ∨ q.req.signal ≠ 0

/-- What goes on while the rebalancer hangs: clients work, requests are refused, and the rebalancer
turns in its loop or returns. -/
def RebalEvent.Refused : RebalEvent → Prop
  | .work | .turn false | .exit | .round none => True
  | .round (some (_, _, res)) | .reassign _ _ res => res = .running
  | _ => False

theorem slabsReassign_locked (q : Rebalancing) (src dst : ℤ) (ho : q.owner = some .rebalancer) :
    q.slabsReassign src dst = (.running, q) := by
  unfold Rebalancing.slabsReassign
  rw [if_pos (by rw [ho]; nofun)]

theorem Hung.step (h : Hung q) (hsl : q.slab.slabStart = 0) (hs : RebalStep n q ev q') :
    Hung q' ∧ ev.Refused := by
  have hno : ∀ {p : RebalPc}, q.pc = p → p ≠ .exited → (∀ b, p ≠ .loop b) → False :=
    fun e h1 h2 => h.pc.elim (fun e' => h1 (e.symm.trans e')) fun ⟨b, e'⟩ => h2 b (e.symm.trans e')
  have hfree : q.owner ≠ none := by rw [h.owner]; nofun
  cases hs with
  | work s hp hpages => exact ⟨⟨h.owner, h.pc, h.busy⟩, trivial⟩
  | round evicted =>
    unfold Rebalancing.maintainerRound
    dsimp only
    generalize q.automove.call q.store.slabs.powerLargest (q.round evicted) = d
    obtain ⟨_ | ⟨src, dst⟩, a⟩ := d
    · exact ⟨⟨h.owner, h.pc, h.busy⟩, trivial⟩
    · dsimp only
      rw [slabsReassign_locked { q with automove := a } src dst h.owner]
      exact ⟨⟨h.owner, h.pc, h.busy⟩, rfl⟩
  | reassign src dst =>
    rw [slabsReassign_locked q src dst h.owner]
    exact ⟨h, rfl⟩
  | busy => exact ⟨h, rfl⟩
  | pause ho => exact absurd ho hfree
  | resume ho => rw [h.owner] at ho; cases ho
  | spawn hpc => exact (hno hpc nofun nofun).elim
  | enter hpc ho => exact absurd ho hfree
  | wake wasBusy hpc ho => exact absurd ho hfree
  | turn wasBusy hpc hr =>
    obtain ⟨b, he⟩ := rebalanceWork_eq (n := n) hsl wasBusy
    have hsig : q.req.signal ≠ 0 := h.busy.resolve_left (by rw [hr]; nofun)
    unfold Rebalancing.rebalanceTurn
    rw [he]
    dsimp only
    rw [if_neg hsig]
    exact ⟨⟨h.owner, .inr ⟨b, rfl⟩, h.busy⟩, trivial⟩
  | exit wasBusy hpc hr => exact ⟨⟨h.owner, .inl rfl, h.busy⟩, trivial⟩
  | stop ho => exact absurd ho hfree

theorem Hung.steps {evs : List RebalEvent} (h : Hung q) (hsl : q.slab.slabStart = 0)
    (hc : q.req.cur ≤ q.store.slabs.powerLargest) (hr : Steps (RebalStep n) q evs q') :
    Hung q' ∧ ∀ ev ∈ evs, ev.Refused := by
  induction hr with
  | refl => exact ⟨h, nofun⟩
  | head hs _ ih =>
    obtain ⟨h', he⟩ := h.step hsl hs
    have ef := hs.effect hsl hc
    obtain ⟨h'', hes⟩ := ih h' ef.slabStart ef.cur
    refine ⟨h'', fun ev hm => ?_⟩
    rcases List.mem_cons.mp hm with rfl | hm
    · exact he
    · exact hes ev hm

/-- The flag is only ever cleared. -/
theorem running_of_steps {evs : List RebalEvent} (h0 : q.Init) (h : Steps (RebalStep n) q evs q')
    (hr : q.running = false) : q'.running = false := by
  have hI := h.history (I := fun evs t => Rebalanced evs t ∧ t.running = false) ⟨h0.rebalanced, hr⟩
    fun as t ev t' ⟨hI, ht⟩ hs => ⟨hI.step hs, ?_⟩
  · exact hI.2
  · cases hs with
    | round evicted =>
      unfold Rebalancing.maintainerRound
      dsimp only
      generalize t.automove.call t.store.slabs.powerLargest (t.round evicted) = d
      obtain ⟨_ | ⟨src, dst⟩, a⟩ := d
      · exact ht
      · dsimp only [Rebalancing.slabsReassign]
        split_ifs <;> exact ht
    | reassign src dst =>
      dsimp only [Rebalancing.slabsReassign]
      split_ifs <;> exact ht
    | turn wasBusy hpc hr => rw [ht] at hr; cases hr
    | stop => rfl
    | _ => exact ht

/-- **The rebalancer hangs.** When it gets the lock while its flag is off, as its constructor leaves it,
or while a request has been granted, it never gives the lock back: from then on every request is
refused with `REASSIGN_RUNNING`, and neither `PauseSlabsRebalancer`, which the expansion of the hash
table calls, nor `SlabsManager::Stop` gets the lock. -/
theorem rebalancer_hangs {as bs : List RebalEvent} (h0 : q.Init)
    (h : Steps (RebalStep n) q (as ++ .lock :: bs) q')
    (hr : q.running = false ∨ as.countP RebalEvent.grants = 1) :
    q'.owner = some .rebalancer ∧ ∀ ev ∈ bs, ev.Refused := by
  obtain ⟨q₁, h₁, h₂⟩ := h.split
  have hI := Rebalanced.of_steps h0 h₁
  have hbusy : q₁.running = false ∨ q₁.req.signal ≠ 0 := by
    rcases hr with hr | hr
    · exact .inl (running_of_steps h0 h₁ hr)
    · refine .inr ?_
      rcases hI.request with ⟨e, -⟩ | ⟨-, h1, -⟩
      · rw [hr] at e; cases e
      · rw [h1]; decide
  cases h₂ with
  | @head _ q₂ _ _ _ hs hr =>
    have hung : Hung q₂ := by
      generalize hev : RebalEvent.lock = ev at hs
      cases hs with
      | enter hpc ho => exact ⟨rfl, .inr ⟨0, rfl⟩, hbusy⟩
      | wake wasBusy hpc ho => exact ⟨rfl, .inr ⟨wasBusy, rfl⟩, hbusy⟩
      | _ => cases hev
    have ef := hs.effect hI.slabStart hI.cur
    obtain ⟨hq, hb⟩ := hung.steps ef.slabStart ef.cur hr
    exact ⟨hq.owner, hb⟩

/-! ## A run -/

/-- Four classes, nothing asked for, and the rebalancer's flag as it is at first. -/
def fourRebalancing : Rebalancing where
  store := { smallWorld.store with slabs := fourClasses }
  slab := ⟨0, 0, 0, 0, 0, 0⟩
  req := ⟨0, 0, 0, 0⟩
  automove := ⟨.init, []⟩
  running := false
  pc := .off
  owner := none

theorem fourRebalancing_init : fourRebalancing.Init := ⟨rfl, by decide, rfl, rfl, rfl⟩

/-- A request is granted, the rebalancer starts and returns with the lock, and the next request is
refused. -/
def grantThenHang : List RebalEvent :=
  [.reassign (-1) 1 .ok, .spawn, .lock, .exit, .reassign 4 1 .running]

theorem grantThenHang_run : ∃ q, Steps (RebalStep 1) fourRebalancing grantThenHang q := by
  obtain ⟨q₁, hq₁⟩ : ∃ q, q = (fourRebalancing.slabsReassign (-1) 1).2 := ⟨_, rfl⟩
  have h1 : RebalStep 1 fourRebalancing (.reassign (-1) 1 .ok) q₁ := by
    have e : (fourRebalancing.slabsReassign (-1) 1).1 = .ok := by decide
    rw [hq₁, ← e]
    exact .reassign fourRebalancing (-1) 1
  have hpc : q₁.pc = .off ∧ q₁.owner = none ∧ q₁.running = false := by rw [hq₁]; decide
  have h2 := @RebalStep.spawn 1 q₁ hpc.1
  have h3 := @RebalStep.enter 1 { q₁ with pc := .enter } rfl hpc.2.1
  have h4 := @RebalStep.exit 1
    { q₁ with pc := .loop 0, owner := some .rebalancer } 0 rfl hpc.2.2
  have h5 := @RebalStep.busy 1
    { q₁ with pc := .exited, owner := some .rebalancer } 4 1
  exact ⟨_, .head h1 (.head h2 (.head h3 (.head h4 (.head h5 (.refl _)))))⟩

theorem rebalance_requests_granted : RebalEvent.turn true ∉ grantThenHang ∧
    grantThenHang.countP RebalEvent.grants ≤ 1 ∧ ∃ q : Rebalancing, q.req.signal = 1 ∧ q.Asks := by
  obtain ⟨q, h⟩ := grantThenHang_run
  have hr := rebalance_requests fourRebalancing_init h
  exact ⟨hr.1, hr.2.1, q, hr.2.2.mpr (by decide)⟩

theorem rebalancer_hangs_refused :
    ∃ q', Steps (RebalStep 1) fourRebalancing
      ([.reassign (-1) 1 .ok, .spawn] ++ .lock :: [.exit, .reassign 4 1 .running]) q' ∧
      q'.owner = some .rebalancer ∧ ∀ ev ∈ [RebalEvent.exit, .reassign 4 1 .running], ev.Refused := by
  obtain ⟨q, h⟩ := grantThenHang_run
  have h : Steps (RebalStep 1) fourRebalancing
    ([.reassign (-1) 1 .ok, .spawn] ++ .lock :: [.exit, .reassign 4 1 .running]) q := h
  exact ⟨q, h, rebalancer_hangs fourRebalancing_init h (.inl rfl)⟩

end Mdb
