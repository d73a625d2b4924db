import Mdb.Lib.Run

/-!
# Worker threads

`Thread` starts, cancels and joins a thread and remembers in `running_` whether it has one;
`LRUCrawler` and `LRUMaintainer` are `Thread`s with a second flag for their loop and a third one in
`g_settings`.

* `PThread`: what has become of a thread; `Worker`: an object of one of the classes;
* `Worker.start`, `Worker.stop`, `Worker.wait`, `Worker.startLRU`, `Worker.stopLRU`: the calls, with
  the outcomes of the `pthread` functions as arguments; a call that does not return gives `none`;
* `worker_has_thread`: as long as no thread of an object has been joined, cancelled or told to stop
  and every thread `StartLRUCrawler` or `StartLRUMaintainer` asks for is created, a start that
  returns true has its thread, and one that returns false leaves the setting false;
* `worker_restarts_nothing`: after `StopLRUMaintainer`, or a failed `StartLRUMaintainer`, the next
  one returns true and there is no thread.
-/

namespace Mdb

open Run

/-- A thread made by `pthread_create`. -/
structure PThread where
  /-- `Run` has returned, or the cancellation has been acted upon. -/
  exited : Bool
  cancelled : Bool
  joined : Bool
  /-- `lru_crawler_running_` (`lru_maintainer_running_`) was cleared since. -/
  told : Bool
  deriving DecidableEq

/-- A thread just created. -/
def PThread.fresh : PThread := ⟨false, false, false, false⟩

/-- Joined, cancelled or told to stop. -/
def PThread.over (t : PThread) : Bool := t.joined || t.cancelled || t.told

/-- An `LRUCrawler` or `LRUMaintainer`, or a plain `Thread` (whose last three fields stay false).
`threads` are the threads created for it, the oldest first; `tid` is the place of one of them. -/
structure Worker where
  /-- `running_`. -/
  running : Bool
  /-- `tid_`, which the constructor leaves as it is. -/
  tid : Option ℕ
  threads : List PThread
  /-- `lru_crawler_running_`, `lru_maintainer_running_`. -/
  loopRunning : Bool
  /-- `g_settings.lru_crawler`, `g_settings.lru_maintainer_thread`. -/
  setting : Bool
  /-- `lru_crawler_lock_`, `lru_maintainer_lock_`: has a start that returned kept it locked? -/
  locked : Bool
  deriving DecidableEq

/-- An object just constructed. -/
def Worker.initial : Worker := ⟨false, none, [], false, false, false⟩

namespace Worker

variable (w : Worker)

/-- The thread `tid_` stands for. -/
def thread : Option PThread := w.tid.bind fun t => w.threads[t]?

/-- Something happens to the thread `tid_` stands for. -/
def onThread (f : PThread → PThread) : Worker :=
  match w.tid with
  | none => w
  | some t => { w with threads := w.threads.modify t f }

/-- `Start()`; `created` is whether `pthread_create` succeeds. -/
def start (created : Bool) : Bool × Worker :=
  if w.running then (true, w)
  else if created then
    (true, { w with
      running := true
      tid := some w.threads.length
      threads := w.threads ++ [.fresh] })
  else (false, { w with running := false })

/-- `IsAlive()`: `pthread_kill(tid_, 0)` finds a thread that has not ended; `kill` is what it says of
any other `tid_`, on which POSIX lets it say anything. -/
def isAlive (kill : Bool) : Bool :=
  match w.thread with
  | some t => if t.exited || t.joined then kill else true
  | none => kill

/-- `Stop()`. After a `pthread_cancel` that succeeds the function ends without a `return`: the value
is anything. -/
def stop (kill garbage : Bool) : Bool × Worker :=
  if w.isAlive kill = false ∨ w.running = false then (true, w)
  else match w.thread with
    | none => (false, w)
    | some t => if t.joined then (false, w)
      else (garbage, w.onThread fun t => { t with cancelled := true })

/-- `Wait()`. A `pthread_join` returns when the thread has ended. -/
def wait (kill : Bool) : Option (Bool × Worker) :=
  if w.isAlive kill = false ∨ w.running = false then some (true, w)
  else match w.thread with
    | none => some (false, w)
    | some t => if t.joined then some (false, w)
      else if t.exited then some (true, w.onThread fun t => { t with joined := true })
      else none

/-- `StartLRUCrawler()` and `StartLRUMaintainer()`; `atEnd` is what the call returns when the thread has
been started. A failed start returns with the lock still taken. -/
def startLRU (created atEnd : Bool) : Option (Bool × Worker) :=
  if w.setting then some (true, w)
  else if w.locked then none
  else
    let r := { w with loopRunning := true, setting := true }.start created
    if r.1 then some (atEnd, r.2) else some (false, { r.2 with locked := true })

/-- `StartLRUCrawler()` ends without a `return`: the value is anything. -/
def startLRUCrawler (created garbage : Bool) : Option (Bool × Worker) := w.startLRU created garbage

/-- `StartLRUMaintainer()`. -/
def startLRUMaintainer (created : Bool) : Option (Bool × Worker) := w.startLRU created true

/-- The first half of `StopLRUCrawler()` and `StopLRUMaintainer()`. -/
def tellStop : Worker :=
  { w with loopRunning := false, threads := w.threads.map fun t => { t with told := true } }

/-- `Run` returns in the thread `tid_` stands for. -/
def exit : Worker := w.onThread fun t => { t with exited := true }

/-- `StopLRUCrawler()` and `StopLRUMaintainer()`; the thread ends, being told to, while the call waits. -/
def stopLRU (kill : Bool) : Option Worker :=
  if w.locked then none
  else (w.tellStop.exit.wait kill).map fun r => { r.2 with setting := false }

end Worker

/-- The `Thread` objects the calls are made on. -/
inductive WorkerId where
  | crawler
  | maintainer
  | other (n : ℕ)
  deriving DecidableEq

/-- A call, with the outcomes of the `pthread` calls in it. -/
inductive WorkerCall where
  | start (created : Bool)
  | stop (kill garbage : Bool)
  | wait (kill : Bool)
  | startLRUCrawler (created garbage : Bool)
  | startLRUMaintainer (created : Bool)
  | stopLRUCrawler (kill : Bool)
  | stopLRUMaintainer (kill : Bool)
  /-- Not a call: the object's thread ends. -/
  | exit
  deriving DecidableEq

/-- Which calls an object has. -/
def WorkerCall.Has : WorkerCall → WorkerId → Prop
  | .startLRUCrawler _ _, id | .stopLRUCrawler _, id => id = .crawler
  | .startLRUMaintainer _, id | .stopLRUMaintainer _, id => id = .maintainer
  | .start _, _ | .stop _ _, _ | .wait _, _ | .exit, _ => True

/-- What a call returns, and what becomes of its object. -/
def Worker.call (w : Worker) : WorkerCall → Option (Bool × Worker)
  | .start created => some (w.start created)
  | .stop kill garbage => some (w.stop kill garbage)
  | .wait kill => w.wait kill
  | .startLRUCrawler created garbage => w.startLRUCrawler created garbage
  | .startLRUMaintainer created => w.startLRUMaintainer created
  | .stopLRUCrawler kill | .stopLRUMaintainer kill => (w.stopLRU kill).map fun w => (true, w)
  | .exit => some (true, w.exit)

/-- Is it a start call? -/
def WorkerCall.starts : WorkerCall → Bool
  | .start _ | .startLRUCrawler _ _ | .startLRUMaintainer _ => true
  | .stop _ _ | .wait _ | .stopLRUCrawler _ | .stopLRUMaintainer _ | .exit => false

/-- All objects. -/
abbrev Workers := WorkerId → Worker

/-- Nothing has been started. -/
def Workers.Init (ws : Workers) : Prop := ∀ id, ws id = .initial

/-- One call on the object `id` that returns `ret`. -/
structure WorkerStep (ws : Workers) (id : WorkerId) (c : WorkerCall) (ret : Bool) (ws' : Workers) :
    Prop where
  has : c.Has id
  call : (ws id).call c = some (ret, ws' id)
  rest : ∀ id', id' ≠ id → ws' id' = ws id'

/-- A thread has been created and not been joined, cancelled or told to stop since. -/
def Worker.HasThread (w : Worker) : Prop := ∃ t ∈ w.threads, t.over = false

/-- Some thread has been joined, cancelled or told to stop. -/
def Worker.Ended (w : Worker) : Prop := ∃ t ∈ w.threads, t.over = true

instance (w : Worker) : Decidable w.HasThread := inferInstanceAs (Decidable (∃ t ∈ _, _))

instance (w : Worker) : Decidable w.Ended := inferInstanceAs (Decidable (∃ t ∈ _, _))

/-- **The condition** on a call: no start follows the end of a thread, and a thread that
`StartLRUCrawler` or `StartLRUMaintainer` asks for is created; the value the former returns by falling
off its end reads as true. -/
def Worker.Careful (w : Worker) : WorkerCall → Prop
  | .start _ => ¬ w.Ended
  | .startLRUCrawler created garbage =>
    ¬ w.Ended ∧ (w.setting = false → (w.running || created) = true ∧ garbage = true)
  | .startLRUMaintainer created =>
    ¬ w.Ended ∧ (w.setting = false → (w.running || created) = true)
  | .stop _ _ | .wait _ | .stopLRUCrawler _ | .stopLRUMaintainer _ | .exit => True

instance (w : Worker) : (c : WorkerCall) → Decidable (w.Careful c)
  | .start _ => inferInstanceAs (Decidable (¬ _))
  | .startLRUCrawler _ _ | .startLRUMaintainer _ => inferInstanceAs (Decidable (_ ∧ _))
  | .stop _ _ | .wait _ | .stopLRUCrawler _ | .stopLRUMaintainer _ | .exit =>
    inferInstanceAs (Decidable True)

/-- A step that meets the condition. -/
def CarefulStep (ws ws' : Workers) : Prop :=
  ∃ id c ret, WorkerStep ws id c ret ws' ∧ (ws id).Careful c

/-- Any step. -/
def WorkerAnyStep (ws ws' : Workers) : Prop := ∃ id c ret, WorkerStep ws id c ret ws'

/-! ## The flags -/

/-- What the flags say of an object. -/
structure Worker.Ok (w : Worker) : Prop where
  running_threads : w.running = true → w.threads ≠ []
  setting_running : w.setting = true → w.running = true

namespace Worker.Ok

variable {w : Worker}

theorem initial : Worker.initial.Ok := ⟨by decide, by decide⟩

/-- What happens to threads does not change the flags. -/
theorem congr (h : w.Ok) {w' : Worker} (hr : w'.running = w.running)
    (hs : w'.setting = true → w.setting = true)
    (ht : w'.threads.length = w.threads.length) : w'.Ok where
  running_threads hw := by
    have hne := List.length_pos_iff.mpr (h.running_threads (hr ▸ hw))
    exact List.length_pos_iff.mp (ht ▸ hne)
  setting_running hw := hr ▸ h.setting_running (hs hw)

theorem onThread (h : w.Ok) (f : PThread → PThread) : (w.onThread f).Ok := by
  unfold Worker.onThread
  split
  · exact h
  · exact h.congr rfl id (List.length_modify ..)

theorem tellStop (h : w.Ok) : w.tellStop.Ok := h.congr rfl id (List.length_map _)

theorem stop (h : w.Ok) (kill garbage : Bool) : (w.stop kill garbage).2.Ok := by
  unfold Worker.stop
  split_ifs
  · exact h
  · split
    · exact h
    · split_ifs
      · exact h
      · exact h.onThread _

theorem wait (h : w.Ok) {kill : Bool} {r : Bool × Worker} (hr : w.wait kill = some r) : r.2.Ok := by
  unfold Worker.wait at hr
  split_ifs at hr
  · cases hr
    exact h
  · split at hr
    · cases hr
      exact h
    · split_ifs at hr <;> cases hr
      · exact h
      · exact h.onThread _

theorem stopLRU (h : w.Ok) {kill : Bool} {w' : Worker} (hr : w.stopLRU kill = some w') : w'.Ok := by
  unfold Worker.stopLRU at hr
  split_ifs at hr
  obtain ⟨r, hw, rfl⟩ := Option.map_eq_some_iff.mp hr
  have h' := (h.tellStop.onThread fun t => { t with exited := true }).wait hw
  exact h'.congr rfl (fun hf => absurd hf Bool.false_ne_true) rfl

theorem start (h : w.Ok) (created : Bool) : (w.start created).2.Ok := by
  unfold Worker.start
  split_ifs with hr hc
  · exact h
  · exact ⟨fun _ => List.append_ne_nil_of_right_ne_nil _ (List.cons_ne_nil _ _), fun _ => rfl⟩
  · exact h.congr (Bool.eq_false_iff.mpr hr).symm id rfl

end Worker.Ok

namespace Worker

variable {w : Worker}

theorem hasThread_of_ne_nil (hne : w.threads ≠ []) (he : ¬ w.Ended) : w.HasThread := by
  obtain ⟨t, ts, ht⟩ := List.exists_cons_of_ne_nil hne
  have hm : t ∈ w.threads := ht ▸ List.mem_cons_self
  exact ⟨t, hm, Bool.eq_false_iff.mpr fun ho => he ⟨t, hm, ho⟩⟩

/-- A start that returns true when nothing has ended has its thread. -/
theorem start_true {created : Bool} (hthreads : w.running = true → w.threads ≠ [])
    (he : ¬ w.Ended) (hr : (w.start created).1 = true) :
    (w.start created).2.running = true ∧ (w.start created).2.HasThread := by
  unfold Worker.start at hr ⊢
  split_ifs at hr ⊢ with h1 h2
  · exact ⟨h1, hasThread_of_ne_nil (hthreads h1) he⟩
  · exact ⟨rfl, .fresh, List.mem_append_right _ List.mem_cons_self, rfl⟩

theorem start_false {created : Bool} (hr : (w.start created).1 = false) :
    w.running = false ∧ created = false ∧ (w.start created).2.setting = w.setting := by
  unfold Worker.start at hr ⊢
  split_ifs at hr ⊢ with h1 h2
  exact ⟨Bool.eq_false_iff.mpr h1, Bool.eq_false_iff.mpr h2, rfl⟩

/-- `StartLRUCrawler` and `StartLRUMaintainer`, when the thread they ask for is created. -/
theorem startLRU_spec {created atEnd ret : Bool} {w' : Worker} (h : w.Ok) (he : ¬ w.Ended)
    (hc : w.setting = false → (w.running || created) = true ∧ atEnd = true)
    (hr : w.startLRU created atEnd = some (ret, w')) : ret = true ∧ w'.Ok ∧ w'.HasThread := by
  unfold Worker.startLRU at hr
  dsimp only at hr
  split_ifs at hr with hset hlock hstart
  · cases hr
    exact ⟨rfl, h, hasThread_of_ne_nil (h.running_threads (h.setting_running hset)) he⟩
  · obtain ⟨-, hend⟩ := hc (Bool.eq_false_iff.mpr hset)
    obtain ⟨rfl, rfl⟩ := Prod.mk.inj (Option.some.inj hr)
    obtain ⟨hrun, hth⟩ := start_true
      (w := { w with loopRunning := true, setting := true }) h.running_threads he hstart
    obtain ⟨t, ht, -⟩ := id hth
    exact ⟨hend, ⟨fun _ => List.ne_nil_of_mem ht, fun _ => hrun⟩, hth⟩
  · -- the thread was created, so the start did not fail
    obtain ⟨hcr, -⟩ := hc (Bool.eq_false_iff.mpr hset)
    obtain ⟨hr1, hr2, -⟩ := start_false (Bool.eq_false_iff.mpr hstart)
    exact absurd hcr (by rw [hr2, Bool.or_false]; exact Bool.eq_false_iff.mp hr1)

/-- A careful call keeps the flags right. -/
theorem Ok.call (h : w.Ok) {c : WorkerCall} (hc : w.Careful c) {ret : Bool} {w' : Worker}
    (hr : w.call c = some (ret, w')) : w'.Ok := by
  cases c with
  | start created =>
    have hs : (w.start created).2 = w' := congrArg Prod.snd (Option.some.inj hr)
    exact hs ▸ h.start created
  | stop kill garbage =>
    have hs : (w.stop kill garbage).2 = w' := congrArg Prod.snd (Option.some.inj hr)
    exact hs ▸ h.stop kill garbage
  | wait kill => exact h.wait hr
  | startLRUCrawler created garbage => exact (startLRU_spec h hc.1 hc.2 hr).2.1
  | startLRUMaintainer created =>
    exact (startLRU_spec h hc.1 (fun hs => ⟨hc.2 hs, rfl⟩) hr).2.1
  | stopLRUCrawler kill | stopLRUMaintainer kill =>
    obtain ⟨w₁, hw, he⟩ := Option.map_eq_some_iff.mp hr
    cases he
    exact h.stopLRU hw
  | exit => cases hr; exact h.onThread _

/-- What a careful start call promises. -/
theorem Ok.starts (h : w.Ok) {c : WorkerCall} (hs : c.starts = true) (hc : w.Careful c) {ret : Bool}
    {w' : Worker} (hr : w.call c = some (ret, w')) :
    (ret = true → w'.HasThread) ∧ (ret = false → w'.setting = false) := by
  cases c with
  | start created =>
    have hr' : w.start created = (ret, w') := Option.some.inj hr
    have h1 : (w.start created).1 = ret := by rw [hr']
    have h2 : (w.start created).2 = w' := by rw [hr']
    rw [← h1, ← h2]
    refine ⟨fun ht => (start_true h.running_threads hc ht).2, fun hf => ?_⟩
    obtain ⟨hrun, -, hset⟩ := start_false hf
    rw [hset]
    exact Bool.eq_false_iff.mpr fun hs => Bool.false_ne_true (hrun.symm.trans (h.setting_running hs))
  | startLRUCrawler created garbage =>
    obtain ⟨rfl, -, hth⟩ := startLRU_spec h hc.1 hc.2 hr
    exact ⟨fun _ => hth, fun hf => absurd hf (by decide)⟩
  | startLRUMaintainer created =>
    obtain ⟨rfl, -, hth⟩ := startLRU_spec h hc.1 (fun hs => ⟨hc.2 hs, rfl⟩) hr
    exact ⟨fun _ => hth, fun hf => absurd hf (by decide)⟩
  | stop | wait | stopLRUCrawler | stopLRUMaintainer | exit => exact absurd hs Bool.false_ne_true

end Worker

/-! ## The main results -/

/-- The flags of every object are right in every careful run. -/
theorem workers_ok {ws : Workers} (h : Reach Workers.Init CarefulStep ws) (id : WorkerId) :
    (ws id).Ok := by
  induction h generalizing id with
  | start h0 => rw [h0 id]; exact .initial
  | next _ ht ih =>
    obtain ⟨id', c, ret, hs, hc⟩ := ht
    by_cases e : id = id'
    · subst e
      exact (ih id).call hc hs.call
    · rw [hs.rest id e]
      exact ih id

/-- **A careful start has its thread**: in every run whose calls meet the condition, a start call that
returns true leaves a thread that has been created and not been joined, cancelled or told to stop,
and one that returns false leaves the setting false. -/
theorem worker_has_thread {ws ws' : Workers} (h : Reach Workers.Init CarefulStep ws) {id : WorkerId}
    {c : WorkerCall} {ret : Bool} (hs : WorkerStep ws id c ret ws') (hstart : c.starts = true)
    (hc : (ws id).Careful c) :
    (ret = true → (ws' id).HasThread) ∧ (ret = false → (ws' id).setting = false) :=
  (workers_ok h id).starts hstart hc hs.call

/-- The step a call on one object makes. -/
theorem worker_step {ws : Workers} {id : WorkerId} {c : WorkerCall} {ret : Bool} {w : Worker}
    (hh : c.Has id) (hr : (ws id).call c = some (ret, w)) :
    WorkerStep ws id c ret (Function.update ws id w) where
  has := hh
  call := by rw [Function.update_self]; exact hr
  rest _ e := Function.update_of_ne e _ _

/-- A first `StartLRUMaintainer`. -/
theorem worker_has_thread_first : ∃ ws' : Workers,
    WorkerStep (fun _ => .initial) .maintainer (.startLRUMaintainer true) true ws' ∧
      (ws' .maintainer).HasThread :=
  have hs : WorkerStep (fun _ => Worker.initial) .maintainer (.startLRUMaintainer true) true _ :=
    worker_step rfl rfl
  ⟨_, hs, (worker_has_thread (.start fun _ => rfl) hs rfl (by decide)).1 rfl⟩

/-- **A restart starts nothing**: after `StopLRUMaintainer` the next `StartLRUMaintainer` returns true, but
the only thread has been told to stop and joined; after a `Stop` so does `Start`; and a
`StartLRUMaintainer` that fails leaves the setting true, so that the next one returns true with no
thread at all. -/
theorem worker_restarts_nothing :
    (∃ ws ws' : Workers, Reach Workers.Init WorkerAnyStep ws ∧
      WorkerStep ws .maintainer (.startLRUMaintainer true) true ws' ∧
      (ws' .maintainer).threads = [⟨true, false, true, true⟩]) ∧
    (∃ ws ws' : Workers, Reach Workers.Init WorkerAnyStep ws ∧
      WorkerStep ws .crawler (.start true) true ws' ∧
      (ws' .crawler).threads = [⟨false, true, false, false⟩]) ∧
    ∃ ws ws' : Workers, Reach Workers.Init WorkerAnyStep ws ∧
      WorkerStep ws .maintainer (.startLRUMaintainer false) false ws' ∧
      (ws' .maintainer).setting = true ∧ ∃ ws'' : Workers,
        WorkerStep ws' .maintainer (.startLRUMaintainer true) true ws'' ∧
        (ws'' .maintainer).threads = [] := by
  have h0 : Reach Workers.Init WorkerAnyStep fun _ => .initial := .start fun _ => rfl
  refine ⟨?_, ?_, ?_⟩
  · have h1 := h0.next ⟨.maintainer, .startLRUMaintainer true, true, worker_step rfl rfl⟩
    have h2 := h1.next ⟨.maintainer, .stopLRUMaintainer true, true, worker_step rfl rfl⟩
    exact ⟨_, _, h2, worker_step rfl rfl, by decide⟩
  · have h1 := h0.next ⟨.crawler, .start true, true, worker_step trivial rfl⟩
    have h2 := h1.next ⟨.crawler, .stop true true, true, worker_step trivial rfl⟩
    exact ⟨_, _, h2, worker_step trivial rfl, by decide⟩
  · exact ⟨_, _, h0, worker_step rfl rfl, by decide, _, worker_step rfl rfl, by decide⟩

end Mdb
