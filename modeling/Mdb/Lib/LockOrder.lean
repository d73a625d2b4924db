import Mdb.Lib.Locks

/-!
# Locks taken in order

Mutexes have ranks, and a thread that holds some waits only for one of a higher rank. Threads that keep
to this never wait for each other in a circle.

* `Ordered rank h evs`: so does a thread that holds `h`, throughout `evs`; `Ordered.append` and
  `Ordered.of_noLock`;
* `Orderly rank h evs`: and it is `Disciplined`; rules for pieces one after the other, between a lock and
  its unlock, and under a `tryLock`;
* `Thread`: a thread on its way through an orderly list of events; `Thread.Waits`;
* **`exists_not_waiting`**: of several threads with something left to do, one does not wait.
-/

namespace Locks

variable {M : Type} [DecidableEq M] {rank : M → ℕ} {h h' : List M} {a b : List (LockEvent M)} {m : M}

/-- Whenever the thread locks a mutex, all that it holds are of lower rank. A `tryLock` does not wait. -/
def Ordered (rank : M → ℕ) : List M → List (LockEvent M) → Prop
  | _, [] => True
  | h, e :: evs => (∀ m, e = .lock m → ∀ n ∈ h, rank n < rank m) ∧
    ∀ h', e.after h = some h' → Ordered rank h' evs

theorem Ordered.append (ha : Ordered rank h a) (hh : holds h a = some h') (hb : Ordered rank h' b) :
    Ordered rank h (a ++ b) := by
  induction a generalizing h with
  | nil =>
    cases hh
    exact hb
  | cons e a ih =>
    refine ⟨ha.1, fun h₁ h1 => ih (ha.2 h₁ h1) ?_⟩
    rw [holds, List.foldlM_cons, h1] at hh
    exact hh

/-- The later part of an ordered list. -/
theorem Ordered.right (hab : Ordered rank h (a ++ b)) (ha : holds h a = some h') :
    Ordered rank h' b := by
  induction a generalizing h with
  | nil =>
    cases ha
    exact hab
  | cons e a ih =>
    rw [holds, List.foldlM_cons, Option.bind_eq_bind, Option.bind_eq_some_iff] at ha
    obtain ⟨h₁, h1, h2⟩ := ha
    exact ih (hab.2 h₁ h1) h2

/-- Where nothing is waited for, nothing is out of order. -/
theorem Ordered.of_noLock (ha : ∀ e ∈ a, ∀ m, e ≠ .lock m) : Ordered rank h a := by
  induction a generalizing h with
  | nil => trivial
  | cons e a ih =>
    exact ⟨fun m he => absurd he (ha e List.mem_cons_self m),
      fun h' _ => ih fun e he => ha e (List.mem_cons_of_mem _ he)⟩

theorem Ordered.lock (hm : ∀ n ∈ h, rank n < rank m) (ha : Ordered rank (m :: h) a) :
    Ordered rank h (.lock m :: a) := by
  refine ⟨fun m' he => ?_, fun h' he => ?_⟩
  · cases he; exact hm
  · rw [LockEvent.after] at he
    split_ifs at he
    cases he
    exact ha

theorem Ordered.tryLock (ha : Ordered rank (m :: h) a) : Ordered rank h (.tryLock m true :: a) := by
  refine ⟨nofun, fun h' he => ?_⟩
  rw [LockEvent.after] at he
  split_ifs at he
  cases he
  exact ha

theorem Ordered.unlock (ha : Ordered rank (h.erase m) a) : Ordered rank h (.unlock m :: a) := by
  refine ⟨nofun, fun h' he => ?_⟩
  rw [LockEvent.after] at he
  split_ifs at he
  cases he
  exact ha

/-- **Disciplined and in order.** -/
structure Orderly (rank : M → ℕ) (h : List M) (evs : List (LockEvent M)) : Prop where
  disciplined : Disciplined h evs
  ordered : Ordered rank h evs

omit [DecidableEq M] in
/-- What ranks below `m` is not `m`. -/
theorem not_mem_of_rank (hm : ∀ n ∈ h, rank n < rank m) : m ∉ h :=
  fun hmem => lt_irrefl _ (hm m hmem)

namespace Orderly

theorem nil (h : List M) : Orderly rank h [] := ⟨.nil h, trivial⟩

theorem append (ha : Orderly rank h a) (hb : Orderly rank h b) : Orderly rank h (a ++ b) :=
  ⟨ha.disciplined.append hb.disciplined, ha.ordered.append ha.disciplined hb.ordered⟩

/-- **Between a lock and its unlock.** -/
theorem bracket (hm : ∀ n ∈ h, rank n < rank m) (ha : Orderly rank (m :: h) a) :
    Orderly rank h (.lock m :: (a ++ [.unlock m])) :=
  ⟨.bracket (not_mem_of_rank hm) ha.disciplined,
    .lock hm (ha.ordered.append ha.disciplined (.unlock trivial))⟩

theorem pair (hm : ∀ n ∈ h, rank n < rank m) : Orderly rank h [.lock m, .unlock m] :=
  bracket hm (nil _)

/-- Under a `tryLock` that has got the mutex. -/
theorem tryBracket (hm : m ∉ h) (ha : Orderly rank (m :: h) a) :
    Orderly rank h (.tryLock m true :: (a ++ [.unlock m])) :=
  ⟨.tryBracket hm ha.disciplined,
    .tryLock (ha.ordered.append ha.disciplined (.unlock trivial))⟩

theorem tryLock_false (ha : Orderly rank h a) : Orderly rank h (.tryLock m false :: a) :=
  ⟨ha.disciplined, nofun, fun h' he => by cases he; exact ha.ordered⟩

theorem flatMap {α : Type} {l : List α} {f : α → List (LockEvent M)}
    (hf : ∀ x ∈ l, Orderly rank h (f x)) : Orderly rank h (l.flatMap f) := by
  induction l with
  | nil => exact nil h
  | cons x l ih =>
    rw [List.flatMap_cons]
    exact (hf x List.mem_cons_self).append (ih fun y hy => hf y (List.mem_cons_of_mem _ hy))

end Orderly

/-! ## Several threads -/

/-- **A thread on its way**: it started with nothing, has done `past` and so holds `held`, and `left` is
still to come; the whole is orderly. -/
structure Thread (rank : M → ℕ) where
  past : List (LockEvent M)
  left : List (LockEvent M)
  held : List M
  orderly : Orderly rank [] (past ++ left)
  held_eq : holds [] past = some held

namespace Thread

/-- The next event locks `m`. -/
def Next (t : Thread rank) (m : M) : Prop := ∃ evs, t.left = .lock m :: evs

/-- The thread waits for a mutex that `u` holds. -/
def Waits (t u : Thread rank) : Prop := ∃ m, t.Next m ∧ m ∈ u.held

/-- What is waited for ranks above what is held. -/
theorem lt_of_next {t : Thread rank} (hn : t.Next m) {n : M} (hm : n ∈ t.held) : rank n < rank m := by
  obtain ⟨evs, e⟩ := hn
  have ho := t.orderly.ordered.right t.held_eq
  rw [e] at ho
  exact ho.1 m rfl n hm

/-- Who holds something has something left to do. -/
theorem left_ne_nil {t : Thread rank} (hm : m ∈ t.held) : t.left ≠ [] := fun e => by
  have h := t.orderly.disciplined
  rw [Disciplined, holds_append t.held_eq, e, holds_nil, Option.some.injEq] at h
  rw [h] at hm
  cases hm

end Thread

/-- **No circular wait.** Of several threads, if one has something left to do, then one that has does
not wait for any of them: the one that waits for the highest mutex would wait for a thread that waits
for a higher one. -/
theorem exists_not_waiting {ι : Type} [Finite ι] (t : ι → Thread rank) (h : ∃ i, (t i).left ≠ []) :
    ∃ i, (t i).left ≠ [] ∧ ∀ j, ¬ (t i).Waits (t j) := by
  by_contra hall
  push Not at hall
  have hnext : ∀ i : {i // (t i).left ≠ []}, ∃ m, (t i).Next m ∧ ∃ j, m ∈ (t j).held := fun i => by
    obtain ⟨j, m, hn, hm⟩ := hall i i.2
    exact ⟨m, hn, j, hm⟩
  choose m hn j hm using hnext
  have : Nonempty {i // (t i).left ≠ []} := by
    obtain ⟨i, hi⟩ := h
    exact ⟨⟨i, hi⟩⟩
  obtain ⟨i, hmax⟩ := Finite.exists_max fun i => rank (m i)
  have hlt := Thread.lt_of_next (hn ⟨j i, Thread.left_ne_nil (hm i)⟩) (hm i)
  exact absurd (hmax _) (Nat.not_le.mpr hlt)

end Locks
